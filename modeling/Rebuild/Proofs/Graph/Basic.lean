/-
  Well-formed graphs: names and numbers match, and both ends of an edge agree.

  * `Graph.WellFormed` is what `Graph.addNode` and `Graph.addEdge` keep;
  * `Graph.Edge` is the edge relation on names: each operation adds exactly the edges it
    is asked for (`edge_addNode`, `edge_addEdge`);
  * `edge_ofAnalysis`: the edges of the graph of an analysis are the recorded
    dependencies other than the one on every unit.
-/
import Mathlib.Data.List.Basic
import Mathlib.Logic.Relation
import Mathlib.Tactic.Common
import Rebuild.Graph
import Rebuild.Proofs.Containers

namespace Rebuild

namespace Graph

/-- Names and numbers are inverse to one another, there is an entry of either kind for
    every node, and the two kinds hold the same edges. -/
structure WellFormed (g : Graph) : Prop where
  number_iff : ∀ (name : Text) (v : Nat), g.numbers[name]? = some v ↔ g.names[v]? = some name
  dependencies_size : g.dependencies.size = g.size
  dependents_size : g.dependents.size = g.size
  next_lt : ∀ v w, w ∈ g.next v → w < g.size
  mem_back : ∀ v w, v ∈ g.back w ↔ w ∈ g.next v

/-- One name depends on another: both are nodes, with an edge between them. -/
def Edge (g : Graph) (unit dependency : Text) : Prop :=
  ∃ v w, g.numbers[unit]? = some v ∧ g.numbers[dependency]? = some w ∧ w ∈ g.next v

theorem empty_wellFormed : empty.WellFormed where
  number_iff name v := by simp [empty]
  dependencies_size := rfl
  dependents_size := rfl
  next_lt v w h := by simp [next, empty] at h
  mem_back v w := by simp [next, back, empty]

namespace WellFormed

variable {g : Graph} (hg : g.WellFormed)
include hg

theorem lt_size {name : Text} {v : Nat} (h : g.numbers[name]? = some v) : v < g.size := by
  rw [hg.number_iff] at h
  exact (Array.getElem?_eq_some_iff.1 h).1

theorem exists_number {v : Nat} (h : v < g.size) : ∃ name : Text, g.numbers[name]? = some v :=
  ⟨g.names[v], (hg.number_iff _ _).2 (Array.getElem?_eq_getElem h)⟩

theorem nameOf_eq {name : Text} {v : Nat} (h : g.numbers[name]? = some v) : g.nameOf v = name := by
  rw [hg.number_iff] at h
  simp [nameOf, Array.getD_eq_getD_getElem?, h]

theorem number_nameOf {v : Nat} (h : v < g.size) : g.numbers[g.nameOf v]? = some v := by
  obtain ⟨name, hn⟩ := hg.exists_number h
  rw [hg.nameOf_eq hn, hn]

theorem number_inj {a b : Text} {v : Nat} (ha : g.numbers[a]? = some v)
    (hb : g.numbers[b]? = some v) : a = b := by
  rw [← hg.nameOf_eq ha, hg.nameOf_eq hb]

/-- A node with an outgoing edge is one. -/
theorem next_source_lt {v w : Nat} (h : w ∈ g.next v) : v < g.size := by
  by_contra hv
  have hs : g.dependencies.size ≤ v := by rw [hg.dependencies_size]; omega
  simp [next, Array.getD_eq_getD_getElem?, Array.getElem?_eq_none hs] at h

theorem edge_nameOf {v w : Nat} (h : w ∈ g.next v) : g.Edge (g.nameOf v) (g.nameOf w) :=
  ⟨v, w, hg.number_nameOf (hg.next_source_lt h), hg.number_nameOf (hg.next_lt v w h), h⟩

end WellFormed

theorem Edge.contains_left {g : Graph} {u d : Text} (h : g.Edge u d) : g.contains u = true := by
  obtain ⟨v, _, hu, _⟩ := h
  rw [contains, Std.ExtTreeMap.contains_eq_isSome_getElem?, hu]; rfl

theorem Edge.contains_right {g : Graph} {u d : Text} (h : g.Edge u d) : g.contains d = true := by
  obtain ⟨_, w, _, hd, _⟩ := h
  rw [contains, Std.ExtTreeMap.contains_eq_isSome_getElem?, hd]; rfl

theorem contains_iff {g : Graph} {name : Text} :
    g.contains name = true ↔ ∃ v, g.numbers[name]? = some v := by
  rw [contains, Std.ExtTreeMap.contains_eq_isSome_getElem?, Option.isSome_iff_exists]

theorem mem_namesOf {g : Graph} {vs : NodeSet} {name : Text} :
    name ∈ g.namesOf vs ↔ ∃ v ∈ vs, g.nameOf v = name := by
  simp [namesOf]

theorem mem_dependenciesOf {g : Graph} (hg : g.WellFormed) {u d : Text} :
    d ∈ g.dependenciesOf u ↔ g.Edge u d := by
  unfold dependenciesOf
  cases hu : g.numbers[u]? with
  | none => simp [Edge, hu]
  | some v =>
    rw [mem_namesOf]
    constructor
    · rintro ⟨w, hw, rfl⟩
      exact ⟨v, w, hu, hg.number_nameOf (hg.next_lt v w hw), hw⟩
    · rintro ⟨v', w, hv', hw, h⟩
      rw [hu] at hv'
      cases hv'
      exact ⟨w, h, hg.nameOf_eq hw⟩

/-! ## Adding nodes -/

theorem addNode_of_number {g : Graph} {name : Text} {v : Nat} (h : g.numbers[name]? = some v) :
    g.addNode name = (g, v) := by
  unfold addNode
  rw [h]

theorem addNode_of_contains {g : Graph} {name : Text} (h : g.contains name = true) :
    (g.addNode name).1 = g := by
  obtain ⟨v, hv⟩ := contains_iff.1 h
  rw [addNode_of_number hv]

theorem number_addNode_self (g : Graph) (name : Text) :
    (g.addNode name).1.numbers[name]? = some (g.addNode name).2 := by
  unfold addNode
  split
  · assumption
  · simp

theorem number_addNode_of_number {g : Graph} {m : Text} {v : Nat} (name : Text)
    (h : g.numbers[m]? = some v) : (g.addNode name).1.numbers[m]? = some v := by
  unfold addNode
  split
  · exact h
  · next hn =>
    have : name ≠ m := by
      rintro rfl
      rw [hn] at h
      cases h
    simp [Std.ExtTreeMap.getElem?_insert, Std.LawfulEqCmp.compare_eq_iff_eq, this, h]

@[simp] theorem contains_addNode {g : Graph} {name m : Text} :
    (g.addNode name).1.contains m = true ↔ m = name ∨ g.contains m = true := by
  unfold addNode
  split
  · next v h =>
    have : g.contains name = true := contains_iff.2 ⟨v, h⟩
    constructor
    · exact Or.inr
    · rintro (rfl | h) <;> assumption
  · simp [contains, Std.ExtTreeMap.contains_insert, Std.LawfulEqCmp.compare_eq_iff_eq,
      eq_comm (a := name)]

theorem next_addNode (g : Graph) (name : Text) (v : Nat) :
    (g.addNode name).1.next v = g.next v := by
  unfold addNode
  split
  · rfl
  · exact getD_push_default g.dependencies ∅ v

theorem back_addNode (g : Graph) (name : Text) (v : Nat) :
    (g.addNode name).1.back v = g.back v := by
  unfold addNode
  split
  · rfl
  · exact getD_push_default g.dependents ∅ v

theorem size_le_addNode (g : Graph) (name : Text) : g.size ≤ (g.addNode name).1.size := by
  unfold addNode
  split <;> simp [size]

theorem WellFormed.addNode {g : Graph} (hg : g.WellFormed) (name : Text) :
    (g.addNode name).1.WellFormed where
  number_iff m v := by
    unfold Graph.addNode
    split
    · exact hg.number_iff m v
    · next hn =>
      simp only [Std.ExtTreeMap.getElem?_insert, Std.LawfulEqCmp.compare_eq_iff_eq,
        Array.getElem?_push]
      by_cases hv : v = g.names.size
      · subst hv
        by_cases hm : name = m
        · simp [hm, size]
        · have : g.numbers[m]? ≠ some g.names.size := fun h => by
            have := hg.lt_size h
            simp [size] at this
          simp [hm, this]
      · by_cases hm : name = m
        · subst hm
          have h1 : g.names[v]? ≠ some name := by
            rw [Ne, ← hg.number_iff, hn]
            simp
          simp [hv, h1, size, Ne.symm hv]
        · simp [hv, hm, hg.number_iff]
  dependencies_size := by
    unfold Graph.addNode
    split
    · exact hg.dependencies_size
    · simp [size, hg.dependencies_size]
  dependents_size := by
    unfold Graph.addNode
    split
    · exact hg.dependents_size
    · simp [size, hg.dependents_size]
  next_lt v w h := by
    rw [next_addNode] at h
    exact Nat.lt_of_lt_of_le (hg.next_lt v w h) (size_le_addNode g name)
  mem_back v w := by
    rw [next_addNode, back_addNode]
    exact hg.mem_back v w

theorem edge_addNode {g : Graph} (hg : g.WellFormed) {name u d : Text} :
    (g.addNode name).1.Edge u d ↔ g.Edge u d := by
  constructor
  · rintro ⟨v, w, hu, hd, h⟩
    rw [next_addNode] at h
    have hv := hg.number_nameOf (hg.next_source_lt h)
    have hw := hg.number_nameOf (hg.next_lt v w h)
    have hu' := (hg.addNode name).number_inj hu (number_addNode_of_number name hv)
    have hd' := (hg.addNode name).number_inj hd (number_addNode_of_number name hw)
    exact hu' ▸ hd' ▸ hg.edge_nameOf h
  · rintro ⟨v, w, hu, hd, h⟩
    exact ⟨v, w, number_addNode_of_number name hu, number_addNode_of_number name hd,
      by rwa [next_addNode]⟩

/-! ## Adding edges -/

/-- The graph with the edge from node `v` to node `w`. -/
def link (g : Graph) (v w : Nat) : Graph :=
  { g with
    dependencies := g.dependencies.modify v (·.insert w)
    dependents := g.dependents.modify w (·.insert v) }

theorem addEdge_eq (g : Graph) (source target : Text) :
    g.addEdge source target =
      (((g.addNode source).1.addNode target).1.link (g.addNode source).2
        ((g.addNode source).1.addNode target).2) := rfl

theorem mem_next_link {g : Graph} (hg : g.WellFormed) {v w x y : Nat} (hv : v < g.size) :
    y ∈ (g.link v w).next x ↔ (x = v ∧ y = w) ∨ y ∈ g.next x :=
  mem_getD_modify_insert (hg.dependencies_size ▸ hv)

theorem mem_back_link {g : Graph} (hg : g.WellFormed) {v w x y : Nat} (hw : w < g.size) :
    y ∈ (g.link v w).back x ↔ (x = w ∧ y = v) ∨ y ∈ g.back x :=
  mem_getD_modify_insert (hg.dependents_size ▸ hw)

theorem WellFormed.link {g : Graph} (hg : g.WellFormed) {v w : Nat} (hv : v < g.size)
    (hw : w < g.size) : (g.link v w).WellFormed where
  number_iff := hg.number_iff
  dependencies_size := by simpa [Graph.link, size] using hg.dependencies_size
  dependents_size := by simpa [Graph.link, size] using hg.dependents_size
  next_lt x y h := by
    rcases (mem_next_link hg hv).1 h with ⟨-, rfl⟩ | h
    · exact hw
    · exact hg.next_lt x y h
  mem_back x y := by
    rw [mem_next_link hg hv, mem_back_link hg hw, hg.mem_back]
    tauto

theorem edge_link {g : Graph} (hg : g.WellFormed) {s t u d : Text} {v w : Nat}
    (hs : g.numbers[s]? = some v) (ht : g.numbers[t]? = some w) :
    (g.link v w).Edge u d ↔ (u = s ∧ d = t) ∨ g.Edge u d := by
  constructor
  · rintro ⟨x, y, hu, hd, h⟩
    rcases (mem_next_link hg (hg.lt_size hs)).1 h with ⟨rfl, rfl⟩ | h
    · exact Or.inl ⟨hg.number_inj hu hs, hg.number_inj hd ht⟩
    · exact Or.inr ⟨x, y, hu, hd, h⟩
  · rintro (⟨rfl, rfl⟩ | ⟨x, y, hu, hd, h⟩)
    · exact ⟨v, w, hs, ht, (mem_next_link hg (hg.lt_size hs)).2 (Or.inl ⟨rfl, rfl⟩)⟩
    · exact ⟨x, y, hu, hd, (mem_next_link hg (hg.lt_size hs)).2 (Or.inr h)⟩

section
variable {g : Graph} (hg : g.WellFormed) {s t : Text}
include hg

theorem WellFormed.addEdge (s t : Text) : (g.addEdge s t).WellFormed := by
  rw [addEdge_eq]
  have h := (hg.addNode s).addNode t
  exact h.link (h.lt_size (number_addNode_of_number t (number_addNode_self g s)))
    (h.lt_size (number_addNode_self _ t))

theorem edge_addEdge {u d : Text} :
    (g.addEdge s t).Edge u d ↔ (u = s ∧ d = t) ∨ g.Edge u d := by
  rw [addEdge_eq, edge_link ((hg.addNode s).addNode t)
    (number_addNode_of_number t (number_addNode_self g s)) (number_addNode_self _ t),
    edge_addNode (hg.addNode s), edge_addNode hg]

end

@[simp] theorem contains_addEdge {g : Graph} {s t m : Text} :
    (g.addEdge s t).contains m = true ↔ m = s ∨ m = t ∨ g.contains m = true := by
  rw [addEdge_eq]
  show ((g.addNode s).1.addNode t).1.contains m = true ↔ _
  simp only [contains_addNode]
  tauto

/-! ## Adding many -/

/-- Several names become nodes. -/
theorem foldl_addNode_spec {g : Graph} (hg : g.WellFormed) (names : List Text) :
    (names.foldl (fun g n => (g.addNode n).1) g).WellFormed ∧
    (∀ m, (names.foldl (fun g n => (g.addNode n).1) g).contains m = true ↔
      m ∈ names ∨ g.contains m = true) ∧
    ∀ u d, (names.foldl (fun g n => (g.addNode n).1) g).Edge u d ↔ g.Edge u d := by
  induction names generalizing g with
  | nil => exact ⟨hg, fun m => by simp, fun u d => Iff.rfl⟩
  | cons n names ih =>
    obtain ⟨h1, h2, h3⟩ := ih (hg.addNode n)
    refine ⟨h1, fun m => ?_, fun u d => ?_⟩
    · rw [List.foldl_cons, h2, contains_addNode, List.mem_cons]
      tauto
    · rw [List.foldl_cons, h3, edge_addNode hg]

/-! ## The graph of an analysis -/

/-- The dependencies of one unit as edges, but for the one on every unit. -/
def addRecord (g : Graph) (name : Text) (dependencies : List Text) : Graph :=
  dependencies.foldl (fun g d => if d = wildcard then g else g.addEdge name d) g

theorem addRecord_spec {g : Graph} (hg : g.WellFormed) {name : Text}
    (hn : g.contains name = true) (ds : List Text) :
    (g.addRecord name ds).WellFormed ∧
    (∀ m, (g.addRecord name ds).contains m = true ↔
      (m ∈ ds ∧ m ≠ wildcard) ∨ g.contains m = true) ∧
    ∀ u d, (g.addRecord name ds).Edge u d ↔
      (u = name ∧ d ∈ ds ∧ d ≠ wildcard) ∨ g.Edge u d := by
  induction ds generalizing g with
  | nil => exact ⟨hg, fun m => by simp [addRecord], fun u d => by simp [addRecord]⟩
  | cons c ds ih =>
    by_cases hc : c = wildcard
    · have he : g.addRecord name (c :: ds) = g.addRecord name ds := by simp [addRecord, hc]
      obtain ⟨h1, h2, h3⟩ := ih hg hn
      rw [he]
      refine ⟨h1, fun m => ?_, fun u d => ?_⟩
      · rw [h2, List.mem_cons]
        have : m = c → ¬ m ≠ wildcard := fun h => by simp [h, hc]
        tauto
      · rw [h3, List.mem_cons]
        have : d = c → ¬ d ≠ wildcard := fun h => by simp [h, hc]
        tauto
    · have he : g.addRecord name (c :: ds) = (g.addEdge name c).addRecord name ds := by
        simp [addRecord, hc]
      obtain ⟨h1, h2, h3⟩ := ih (hg.addEdge name c) (by simp)
      rw [he]
      refine ⟨h1, fun m => ?_, fun u d => ?_⟩
      · rw [h2, contains_addEdge, List.mem_cons]
        constructor
        · rintro (⟨h, h'⟩ | rfl | rfl | h)
          · exact Or.inl ⟨Or.inr h, h'⟩
          · exact Or.inr hn
          · exact Or.inl ⟨Or.inl rfl, hc⟩
          · exact Or.inr h
        · rintro (⟨rfl | h, h'⟩ | h)
          · exact Or.inr (Or.inr (Or.inl rfl))
          · exact Or.inl ⟨h, h'⟩
          · exact Or.inr (Or.inr (Or.inr h))
      · rw [h3, edge_addEdge hg, List.mem_cons]
        constructor
        · rintro (⟨h, h', h''⟩ | ⟨rfl, rfl⟩ | h)
          · exact Or.inl ⟨h, Or.inr h', h''⟩
          · exact Or.inl ⟨rfl, Or.inl rfl, hc⟩
          · exact Or.inr h
        · rintro (⟨rfl, rfl | h, h'⟩ | h)
          · exact Or.inr (Or.inl ⟨rfl, rfl⟩)
          · exact Or.inl ⟨rfl, h, h'⟩
          · exact Or.inr (Or.inr h)

/-- The graph of some records. -/
def ofRecords (rs : List (Text × UnitRecord)) (g : Graph) : Graph :=
  rs.foldl (fun g r => (g.addNode r.1).1.addRecord r.1 r.2.dependencies.toList) g

theorem ofRecords_spec {g : Graph} (hg : g.WellFormed) (rs : List (Text × UnitRecord)) :
    (ofRecords rs g).WellFormed ∧
    (∀ m, (ofRecords rs g).contains m = true ↔
      (∃ r ∈ rs, m = r.1 ∨ m ∈ r.2.dependencies ∧ m ≠ wildcard) ∨ g.contains m = true) ∧
    ∀ u d, (ofRecords rs g).Edge u d ↔
      (∃ r ∈ rs, u = r.1 ∧ d ∈ r.2.dependencies ∧ d ≠ wildcard) ∨ g.Edge u d := by
  induction rs generalizing g with
  | nil => exact ⟨hg, fun m => by simp [ofRecords], fun u d => by simp [ofRecords]⟩
  | cons r rs ih =>
    have hn : (g.addNode r.1).1.contains r.1 = true := by simp
    obtain ⟨a1, a2, a3⟩ := addRecord_spec (hg.addNode r.1) hn r.2.dependencies.toList
    obtain ⟨h1, h2, h3⟩ := ih a1
    have he : ofRecords (r :: rs) g =
        ofRecords rs ((g.addNode r.1).1.addRecord r.1 r.2.dependencies.toList) := rfl
    rw [he]
    refine ⟨h1, fun m => ?_, fun u d => ?_⟩
    · simp only [h2, a2, contains_addNode, Std.ExtTreeSet.mem_toList, List.mem_cons, or_and_right,
        exists_or, exists_eq_left]
      simp only [or_assoc, or_left_comm]
    · simp only [h3, a3, edge_addNode hg, Std.ExtTreeSet.mem_toList, List.mem_cons, or_and_right,
        exists_or, exists_eq_left]
      simp only [or_assoc, or_left_comm]

theorem ofAnalysis_eq (a : Analysis) : ofAnalysis a = ofRecords a.units.toList empty := by
  unfold ofAnalysis ofRecords
  rw [Std.ExtTreeMap.foldl_eq_foldl_toList]
  congr 1
  funext g r
  rw [Std.ExtTreeSet.foldl_eq_foldl_toList]
  rfl

theorem ofAnalysis_wellFormed (a : Analysis) : (ofAnalysis a).WellFormed := by
  rw [ofAnalysis_eq]
  exact (ofRecords_spec empty_wellFormed _).1

/-- **The nodes are the recorded units and what they depend on.** -/
theorem contains_ofAnalysis {a : Analysis} {m : Text} :
    (ofAnalysis a).contains m = true ↔
      ∃ u r, a.find? u = some r ∧ (m = u ∨ m ∈ r.dependencies ∧ m ≠ wildcard) := by
  rw [ofAnalysis_eq, (ofRecords_spec empty_wellFormed _).2.1]
  simp [Std.ExtTreeMap.mem_toList_iff_getElem?_eq_some, Analysis.find?, empty, contains]

/-- **The edges are the recorded dependencies**, but for the one on every unit. -/
theorem edge_ofAnalysis {a : Analysis} {u d : Text} :
    (ofAnalysis a).Edge u d ↔ ∃ r, a.find? u = some r ∧ d ∈ r.dependencies ∧ d ≠ wildcard := by
  rw [ofAnalysis_eq, (ofRecords_spec empty_wellFormed _).2.2]
  have he : ¬ empty.Edge u d := by rintro ⟨v, w, hv, -⟩; simp [empty] at hv
  simp only [he, or_false, Std.ExtTreeMap.mem_toList_iff_getElem?_eq_some, Analysis.find?,
    Prod.exists]
  constructor
  · rintro ⟨n, r, h, rfl, h'⟩
    exact ⟨r, h, h'⟩
  · rintro ⟨r, h, h'⟩
    exact ⟨u, r, h, rfl, h'⟩

end Graph

end Rebuild
