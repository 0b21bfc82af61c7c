/-
  The components of a graph, and whether it has cycles.

  * `Decomposes`: what it is for some lists to be the strongly connected components of a
    relation between nodes, dependencies first;
  * `components_decompose`: the search for components ends with that, for every graph that
    can be built, and `Graph.hasCycles` finds a cycle iff there is one.
-/
import Rebuild.Proofs.Graph.Build
import Rebuild.Proofs.Graph.Search.Ending

namespace Rebuild

open Relation

/-- The parts are the strongly connected components of some nodes, each in the order of names,
    and a part comes after those that it depends on. -/
structure Decomposes (nodes : Text → Prop) (depends : Text → Text → Prop)
    (parts : List (List Text)) : Prop where
  ne_nil : ∀ part ∈ parts, part ≠ []
  mem_iff : ∀ u, (∃ part ∈ parts, u ∈ part) ↔ nodes u
  apart : Apart parts
  same_iff : ∀ i u v, IsAt parts i u →
    (IsAt parts i v ↔ ReflTransGen depends u v ∧ ReflTransGen depends v u)
  sorted : ∀ part ∈ parts, part.Pairwise (· < ·)
  earlier : ∀ u v i j, depends u v → IsAt parts i u → IsAt parts j v → i ≠ j → j < i

/-- The order of texts is that of their bytes, from the first on. -/
theorem Text.compare_eq_lt {a b : Text} : compare a b = .lt ↔ a < b := by
  induction a generalizing b with
  | nil =>
    rw [List.compare_eq_compareLex]
    cases b with
    | nil => simp [List.compareLex_nil_nil]
    | cons y b => simp [List.compareLex_nil_cons]
  | cons x a ih =>
    cases b with
    | nil => simp
    | cons y b =>
      rw [List.compare_eq_compareLex, List.compareLex_cons_cons, Ordering.then_eq_lt,
        List.cons_lt_cons_iff, ← List.compare_eq_compareLex, ih, Std.compare_eq_lt,
        Std.LawfulEqCmp.compare_eq_iff_eq]

namespace Graph

variable {g : Graph} (hg : g.WellFormed)

section
include hg

theorem decomposes_of_wellFormed : Decomposes (g.contains · = true) g.Edge g.components where
  ne_nil c hc := by
    obtain ⟨vs, hvs, rfl, -⟩ := exists_of_mem_components hg hc
    obtain ⟨v, hv⟩ := List.exists_mem_of_ne_nil vs ((search_spec hg).1.ne_nil hvs)
    exact List.ne_nil_of_mem (mem_component.2 ⟨v, hv, rfl⟩)
  mem_iff u := mem_components hg
  apart := components_apart hg
  same_iff i u v hu := by
    obtain ⟨c, hi, hu⟩ := hu
    rw [← mem_component_iff hg (List.mem_of_getElem? hi) hu]
    constructor
    · rintro ⟨d, hd, hv⟩
      cases hi.symm.trans hd
      exact hv
    · exact fun hv => ⟨c, hi, hv⟩
  sorted c hc := by
    obtain ⟨vs, -, rfl, -⟩ := exists_of_mem_components hg hc
    exact Std.ExtTreeSet.ordered_toList.imp Text.compare_eq_lt.1
  earlier u v i j h hu hv hne := by
    rcases h.before hg with ⟨k, hku, hkv⟩ | hbefore
    · have hik := components_apart hg i k u hu hku
      have hjk := components_apart hg j k v hv hkv
      exact absurd (hik.trans hjk.symm) hne
    · exact hbefore.lt hg hv hu

/-- A component with more than one member has two that are not the same. -/
theorem one_lt_length_iff {c : List Text} (hc : c ∈ g.components) :
    1 < c.length ↔ ∃ u ∈ c, ∃ v ∈ c, u ≠ v := by
  have hsorted := (decomposes_of_wellFormed hg).sorted c hc
  constructor
  · intro hlength
    match c, hlength with
    | u :: v :: rest, _ =>
      refine ⟨u, List.mem_cons_self, v, List.mem_cons_of_mem u List.mem_cons_self, ?_⟩
      rintro rfl
      exact List.lt_irrefl u ((List.pairwise_cons.1 hsorted).1 u List.mem_cons_self)
  · rintro ⟨u, hu, v, hv, hne⟩
    match c, hu, hv with
    | [w], hu, hv => exact absurd ((List.mem_singleton.1 hu).trans (List.mem_singleton.1 hv).symm) hne
    | _ :: _ :: _, _, _ => exact Nat.one_lt_succ_succ _

/-- Some set of dependencies holds its own node iff some name depends on itself. -/
theorem any_next_iff : (List.range g.size).any (fun v => (g.next v).contains v) = true ↔
    ∃ u, g.Edge u u := by
  rw [List.any_eq_true]
  constructor
  · rintro ⟨v, -, hv⟩
    exact ⟨_, hg.edge_nameOf (Std.ExtTreeSet.mem_iff_contains.2 hv)⟩
  · rintro ⟨u, v, w, hv, hw, hvw⟩
    cases hv.symm.trans hw
    exact ⟨v, List.mem_range.2 (hg.lt_size hv), Std.ExtTreeSet.mem_iff_contains.1 hvw⟩

/-- **A cycle is found iff there is one**: within a node, or through another one of its
    component. -/
theorem hasCycles_iff : g.hasCycles = true ↔ ∃ u, TransGen g.Edge u u := by
  rw [hasCycles, Bool.or_eq_true, any_next_iff hg, List.any_eq_true]
  simp only [decide_eq_true_eq]
  constructor
  · rintro (⟨u, h⟩ | ⟨c, hc, hlength⟩)
    · exact ⟨u, .single h⟩
    · obtain ⟨u, hu, v, hv, hne⟩ := (one_lt_length_iff hg hc).1 hlength
      obtain ⟨huv, hvu⟩ := (mem_component_iff hg hc hu).1 hv
      have hvu := (reflTransGen_iff_eq_or_transGen.1 hvu).resolve_left hne
      exact ⟨u, hvu.trans_right huv⟩
  · rintro ⟨u, h⟩
    obtain ⟨v, huv, hvu⟩ := TransGen.head'_iff.1 h
    by_cases he : v = u
    · exact Or.inl ⟨u, he ▸ huv⟩
    · obtain ⟨c, hc, hu⟩ := (mem_components hg).2 huv.contains_left
      have hv := (mem_component_iff hg hc hu).2 ⟨.single huv, hvu⟩
      exact Or.inr ⟨c, hc, (one_lt_length_iff hg hc).2 ⟨u, hu, v, hv, Ne.symm he⟩⟩

end

/-- **The components of a graph**, however it was built: the search for them ends, they are
    the classes of mutual dependence in the order of their dependencies, and a cycle is found
    iff some node depends on itself. -/
theorem components_decompose (additions : List Addition) :
    let g := build additions
    let depends (u d : Text) : Prop := .edge u d ∈ additions
    Search.Visits g g.roots (.start g.size) g.search ∧
      Decomposes (fun u => ∃ a ∈ additions, u ∈ a.names) depends g.components ∧
      (g.hasCycles = true ↔ ∃ u, TransGen depends u u) := by
  intro g depends
  obtain ⟨hwell, hcontains, hedge⟩ := build_spec additions
  have hnodes : (g.contains · = true) = fun u => ∃ a ∈ additions, u ∈ a.names :=
    funext fun u => propext (hcontains u)
  have hdepends : g.Edge = depends := funext fun u => funext fun d => propext (hedge u d)
  refine ⟨search_visits hwell, ?_, ?_⟩
  · rw [← hnodes, ← hdepends]
    exact decomposes_of_wellFormed hwell
  · rw [← hdepends]
    exact hasCycles_iff hwell

/-- Two units that need each other, with one that needs them. -/
example : (build [.edge "C" "A", .edge "A" "B", .edge "B" "A", .node "D"]).components =
    [[("A" : Text), "B"], [("C" : Text)], [("D" : Text)]] := by decide +kernel

end Graph

end Rebuild
