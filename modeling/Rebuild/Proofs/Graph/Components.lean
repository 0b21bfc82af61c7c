/-
  The components of a graph, as names.

  * `mem_components`: the nodes are the members of the components, each of exactly one
    (`components_pairwise`);
  * `mem_component_iff`: a component is a class of mutual dependence;
  * `components_pairwise` also says that no component depends on a later one, so what a
    node depends on is in its component or before it (`Edge.before`).
-/
import Mathlib.Algebra.Order.BigOperators.Group.Finset
import Rebuild.Proofs.Graph.Search.Run

namespace Rebuild

open Relation

namespace Search

variable {g : Graph}

theorem entry_start (n v : Nat) : (start n).entry v = none := by
  simp only [entry, start, Array.getD_eq_getD_getElem?, Array.getElem?_replicate]
  split <;> rfl

theorem start_valid (g : Graph) : Valid g (start g.size) where
  entered_size := by simp [start]
  onStack_size := by simp [start]
  low_size := by simp [start]
  time_lt v h := absurd (entry_start _ v) h
  onStack_iff v := by
    simp only [start, Array.getD_eq_getD_getElem?, Array.getElem?_replicate]
    split <;> simp
  entered_iff v := by
    rw [entry_start]
    simp [start]
  not_closed v h := by simp [start] at h
  stack_sorted := .nil
  frames_sorted := .nil
  frame_mem f h := by simp [start] at h
  frame_arc f h := by simp [start] at h
  taken v h := absurd (entry_start _ v) h
  frame_reaches f h := by simp [start] at h
  below_frame v h := by simp [start] at h
  low_le v h := by simp [start] at h
  low_reaches v h := by simp [start] at h
  low_lt v h := by simp [start] at h
  low_taken f h := by simp [start] at h
  ordered := .nil

end Search

namespace Graph

variable {g : Graph}

/-- The extent counts every node and its edges. -/
theorem extent_eq (hg : g.WellFormed) :
    g.extent = ∑ v ∈ Finset.range g.size, ((g.next v).size + 1) := by
  have : ∀ l : List NodeSet, l.foldl (fun n targets => n + 1 + targets.size) 0 =
      ∑ v ∈ Finset.range l.length, ((l.getD v ∅).size + 1) := fun l => by
    induction l using List.reverseRecOn with
    | nil => rfl
    | append_singleton l targets ih =>
      have hl : ∀ v ∈ Finset.range l.length,
          ((l ++ [targets]).getD v ∅).size + 1 = (l.getD v ∅).size + 1 := fun v hv => by
        rw [List.getD_eq_getElem?_getD, List.getElem?_append_left (Finset.mem_range.1 hv),
          ← List.getD_eq_getElem?_getD]
      rw [List.foldl_append, ih, List.length_append, List.length_singleton,
        Finset.sum_range_succ, Finset.sum_congr rfl hl]
      simp
      omega
  rw [extent, ← Array.foldl_toList, this, Array.length_toList, hg.dependencies_size]
  refine Finset.sum_congr rfl fun v _ => ?_
  simp [next, Array.getD_eq_getD_getElem?, List.getD_eq_getElem?_getD]

end Graph

namespace Search

variable {g : Graph} {s : Search}

theorem pending_le_extent (hg : g.WellFormed) (hf : s.frames = []) :
    s.pending g ≤ g.extent := by
  rw [Graph.extent_eq hg, pending, hf]
  simp only [List.map_nil, List.sum_nil, Nat.zero_add]
  refine Finset.sum_le_sum fun v _ => ?_
  split
  · exact Nat.le_refl _
  · exact Nat.zero_le _

/-- **A visit enters its root** and ends without a frame. -/
theorem visit_spec (hg : g.WellFormed) (hs : Valid g s) (hf : s.frames = []) {root : Nat}
    (hroot : root < g.size) :
    Valid g (s.visit g g.extent root) ∧ (s.visit g g.extent root).frames = [] ∧
      (s.visit g g.extent root).entry root ≠ none ∧
      ∀ v, s.entry v ≠ none → (s.visit g g.extent root).entry v ≠ none := by
  unfold visit
  split
  · next t he => exact ⟨hs, hf, by simp [he], fun v hv => hv⟩
  · next he =>
    have hn := hs.enter he hroot (by simp [hf])
    have hp : (s.enter root (g.next root).toList).pending g ≤ g.extent := by
      rw [pending_enter hs.entered_size hroot he]
      exact pending_le_extent hg hf
    obtain ⟨h1, h2, h3⟩ := run_spec hg g.extent hn hp
    exact ⟨h1, h2, h3 root (hn.entered_of_mem List.mem_cons_self),
      fun v hv => h3 v (entry_enter_ne root _ hv)⟩

theorem foldl_visit_spec (hg : g.WellFormed) (hs : Valid g s) (hf : s.frames = [])
    (roots : List Nat) (hroots : ∀ v ∈ roots, v < g.size) :
    let s' := roots.foldl (fun s root => s.visit g g.extent root) s
    Valid g s' ∧ s'.frames = [] ∧ ∀ v, s.entry v ≠ none ∨ v ∈ roots → s'.entry v ≠ none := by
  induction roots generalizing s with
  | nil => exact ⟨hs, hf, fun v hv => by simpa using hv⟩
  | cons root roots ih =>
    obtain ⟨h1, h2, h3, h4⟩ := visit_spec hg hs hf (hroots root List.mem_cons_self)
    obtain ⟨h5, h6, h7⟩ := ih h1 h2 fun v hv => hroots v (List.mem_cons_of_mem _ hv)
    refine ⟨h5, h6, fun v hv => h7 v ?_⟩
    rcases hv with hv | hv
    · exact Or.inl (h4 v hv)
    · rcases List.mem_cons.1 hv with rfl | hv
      · exact Or.inl h3
      · exact Or.inr hv

end Search

namespace Graph

/-- The component of `u` is listed before that of `v`. -/
def Before (g : Graph) (u v : Text) : Prop :=
  ∃ i j, i < j ∧ IsAt g.components i u ∧ IsAt g.components j v

/-- The nodes from which a search begins, in the order of their names. -/
def roots (g : Graph) : List Nat := g.numbers.toList.map (·.2)

theorem search_eq (g : Graph) : g.search =
    g.roots.foldl (fun s root => s.visit g g.extent root) (Search.start g.size) := by
  rw [search, roots, Std.ExtTreeMap.foldl_eq_foldl_toList, List.foldl_map]

variable {g : Graph} (hg : g.WellFormed)
include hg

/-- Every node is one of them. -/
theorem mem_roots {v : Nat} : v ∈ g.roots ↔ v < g.size := by
  rw [roots, List.mem_map]
  constructor
  · rintro ⟨⟨name, w⟩, h, rfl⟩
    exact hg.lt_size (Std.ExtTreeMap.mem_toList_iff_getElem?_eq_some.1 h)
  · intro h
    obtain ⟨name, hn⟩ := hg.exists_number h
    exact ⟨(name, v), Std.ExtTreeMap.mem_toList_iff_getElem?_eq_some.2 hn, rfl⟩

/-- **The search closes every node.** -/
theorem search_spec : Search.Ordered g g.search.closed ∧
    ∀ v, (∃ c ∈ g.search.closed, v ∈ c) ↔ v < g.size := by
  obtain ⟨h1, h2, h3⟩ := Search.foldl_visit_spec hg (Search.start_valid g) rfl g.roots
    fun v => (mem_roots hg).1
  rw [← search_eq] at h1 h2 h3
  -- no frame is left, so nothing is left on the stack
  have hst : ∀ v, v ∉ g.search.stack := fun v hv => by
    obtain ⟨f, hf, -⟩ := h1.below_frame v hv
    rw [h2] at hf
    simp at hf
  refine ⟨h1.ordered, fun v => ⟨fun hc => ?_, fun hv => ?_⟩⟩
  · have hne := (h1.entered_iff v).2 (Or.inr hc)
    by_contra hlt
    have hs : g.search.entered.size ≤ v := by rw [h1.entered_size]; omega
    exact hne (by simp [Search.entry, Array.getD_eq_getD_getElem?, Array.getElem?_eq_none hs])
  · exact ((h1.entered_iff v).1 (h3 v (Or.inr ((mem_roots hg).2 hv)))).resolve_left (hst v)

/-! ## Names -/

theorem edge_iff_arc {v w : Nat} (hv : v < g.size) (hw : w < g.size) :
    g.Edge (g.nameOf v) (g.nameOf w) ↔ g.Arc v w := by
  constructor
  · rintro ⟨x, y, hx, hy, h⟩
    rw [hg.number_nameOf hv] at hx
    rw [hg.number_nameOf hw] at hy
    cases hx
    cases hy
    exact h
  · exact fun h => hg.edge_nameOf h

theorem reaches_iff {v w : Nat} (hv : v < g.size) (hw : w < g.size) :
    ReflTransGen g.Edge (g.nameOf v) (g.nameOf w) ↔ g.Reaches v w := by
  constructor
  · intro h
    suffices ∀ b, ReflTransGen g.Edge (g.nameOf v) b → ∀ x, x < g.size → g.nameOf x = b →
        g.Reaches v x from this _ h w hw rfl
    intro b hb
    induction hb with
    | refl =>
      intro x hx he
      have h1 := hg.number_nameOf hx
      rw [he, hg.number_nameOf hv] at h1
      rw [Option.some.inj h1]
    | tail _ hab ih =>
      rintro x hx rfl
      obtain ⟨y, z, hy, hz, hyz⟩ := hab
      rw [hg.number_nameOf hx] at hz
      cases hz
      exact (ih y (hg.lt_size hy) (hg.nameOf_eq hy)).tail hyz
  · exact fun h => h.lift g.nameOf fun a b h => hg.edge_nameOf h

omit hg in
theorem mem_component {vs : List Nat} {name : Text} :
    name ∈ (TextSet.ofTexts (vs.map g.nameOf)).toList ↔ ∃ v ∈ vs, g.nameOf v = name := by
  simp

/-- A component is that of some numbers. -/
theorem exists_of_mem_components {c : List Text} (hc : c ∈ g.components) :
    ∃ vs ∈ g.search.closed, (TextSet.ofTexts (vs.map g.nameOf)).toList = c ∧
      ∀ v < g.size, g.nameOf v ∈ c ↔ v ∈ vs := by
  obtain ⟨vs, hvs, rfl⟩ := List.mem_map.1 hc
  have hvs := List.mem_reverse.1 hvs
  refine ⟨vs, hvs, rfl, fun v hv => ?_⟩
  rw [mem_component]
  constructor
  · rintro ⟨w, hw, he⟩
    have h1 := hg.number_nameOf (((search_spec hg).2 w).1 ⟨vs, hvs, hw⟩)
    rw [he, hg.number_nameOf hv] at h1
    rwa [Option.some.inj h1]
  · exact fun h => ⟨v, h, rfl⟩

/-- **Every node is in a component**, and nothing else is. -/
theorem mem_components {name : Text} :
    (∃ c ∈ g.components, name ∈ c) ↔ g.contains name = true := by
  rw [contains_iff]
  constructor
  · rintro ⟨c, hc, hn⟩
    obtain ⟨vs, hvs, rfl, -⟩ := exists_of_mem_components hg hc
    obtain ⟨v, hv, rfl⟩ := mem_component.1 hn
    exact ⟨v, hg.number_nameOf (((search_spec hg).2 v).1 ⟨vs, hvs, hv⟩)⟩
  · rintro ⟨v, hv⟩
    obtain ⟨vs, hvs, hm⟩ := ((search_spec hg).2 v).2 (hg.lt_size hv)
    exact ⟨_, List.mem_map.2 ⟨vs, List.mem_reverse.2 hvs, rfl⟩,
      mem_component.2 ⟨v, hm, hg.nameOf_eq hv⟩⟩

/-- **A component is a class of mutual dependence.** -/
theorem mem_component_iff {c : List Text} (hc : c ∈ g.components) {a b : Text} (ha : a ∈ c) :
    b ∈ c ↔ ReflTransGen g.Edge a b ∧ ReflTransGen g.Edge b a := by
  obtain ⟨vs, hvs, rfl, hm⟩ := exists_of_mem_components hg hc
  obtain ⟨v, hv, rfl⟩ := mem_component.1 ha
  have hlt := ((search_spec hg).2 v).1 ⟨vs, hvs, hv⟩
  by_cases hb : g.contains b = true
  · obtain ⟨w, hw⟩ := contains_iff.1 hb
    have hwlt := hg.lt_size hw
    rw [← hg.nameOf_eq hw, hm w hwlt, (search_spec hg).1.mem_iff hvs hv,
      reaches_iff hg hlt hwlt, reaches_iff hg hwlt hlt]
  · constructor
    · exact fun h => absurd ((mem_components hg).1 ⟨_, hc, h⟩) hb
    · rintro ⟨h, -⟩
      rcases h.cases_tail with h | ⟨x, -, h⟩
      · exact h ▸ ha
      · exact absurd h.contains_right hb

/-- **Components come in the order of their dependencies**: two of them share no node, and
    the earlier one does not depend on the later one. -/
theorem components_pairwise : g.components.Pairwise fun c d =>
    (∀ a ∈ c, a ∉ d) ∧ ∀ a ∈ c, ∀ b ∈ d, ¬ g.Edge a b := by
  unfold components
  rw [List.pairwise_map, List.pairwise_reverse]
  refine (search_spec hg).1.pairwise.imp_of_mem fun {c d} hc hd h => ?_
  have hlt : ∀ {c}, c ∈ g.search.closed → ∀ v ∈ c, v < g.size := fun hc v hv =>
    ((search_spec hg).2 v).1 ⟨_, hc, hv⟩
  refine ⟨fun a ha ha' => ?_, fun a ha b hb => ?_⟩
  · obtain ⟨v, hv, rfl⟩ := mem_component.1 ha
    obtain ⟨w, hw, he⟩ := mem_component.1 ha'
    have h1 := hg.number_nameOf (hlt hc w hw)
    rw [he, hg.number_nameOf (hlt hd v hv)] at h1
    exact h.1 w hw (Option.some.inj h1 ▸ hv)
  · obtain ⟨v, hv, rfl⟩ := mem_component.1 ha
    obtain ⟨w, hw, rfl⟩ := mem_component.1 hb
    rw [edge_iff_arc hg (hlt hd v hv) (hlt hc w hw)]
    exact h.2 v hv w hw

theorem components_apart : Apart g.components :=
  apart_of_pairwise ((components_pairwise hg).imp fun h => h.1)

theorem Before.lt {u v : Text} (h : g.Before u v) {i j : Nat} (hu : IsAt g.components i u)
    (hv : IsAt g.components j v) : i < j := by
  obtain ⟨i', j', hlt, hu', hv'⟩ := h
  rwa [components_apart hg i i' u hu hu', components_apart hg j j' v hv hv']

/-- **What a node depends on** is in its component or in one before it. -/
theorem Edge.before {u v : Text} (h : g.Edge u v) :
    (∃ i, IsAt g.components i u ∧ IsAt g.components i v) ∨ g.Before v u := by
  obtain ⟨i, hu⟩ := exists_isAt.2 ((mem_components hg).2 h.contains_left)
  obtain ⟨j, hv⟩ := exists_isAt.2 ((mem_components hg).2 h.contains_right)
  rcases Nat.lt_trichotomy i j with hlt | rfl | hlt
  · obtain ⟨us, hi, hu⟩ := hu
    obtain ⟨vs, hj, hv⟩ := hv
    obtain ⟨hil, rfl⟩ := List.getElem?_eq_some_iff.1 hi
    obtain ⟨hjl, rfl⟩ := List.getElem?_eq_some_iff.1 hj
    have hp := List.pairwise_iff_getElem.1 (components_pairwise hg) i j hil hjl hlt
    exact absurd h (hp.2 u hu v hv)
  · exact Or.inl ⟨i, hu, hv⟩
  · exact Or.inr ⟨j, i, hlt, hv, hu⟩

end Graph

end Rebuild
