/-
  What the changes reach, declaratively.

  * `Purged`, `Produced`, `Live` and `SourceIn` say what removed and changed sources do to
    a unit; `Impact.Faithful` is what an impact made of their claims has of it;
  * `Reached` is the least set of units with those of the changed sources that is closed
    under dependence, under units that depend on every unit, and under shared sources;
  * `exists_rounds`: the loop ends, after at most as many rounds as there are units;
  * `mem_spread_iff`: what it ends with is what is `Reached`.
-/
import Mathlib.Logic.Function.Iterate
import Rebuild.Proofs.Changes
import Rebuild.Proofs.Graph.Closure
import Rebuild.Proofs.Plan.Claims

namespace Rebuild

open Relation

/-- The sources that were there and are no longer. -/
def removedSources (a : Analysis) (current : Snapshots) : List Text :=
  (Changes.between a.snapshots current).removed.toList

/-- The sources that are there and differ, or were not there before. -/
def changedSources (a : Analysis) (current : Snapshots) : List Text :=
  (Changes.between a.snapshots current).modified.toList ++
    (Changes.between a.snapshots current).added.toList

theorem has_of_mem_changedSources {a : Analysis} {current : Snapshots} {path : Text}
    (h : path ∈ changedSources a current) :
    current.has path = true := by
  rcases List.mem_append.1 h with h | h
  · exact Changes.has_of_mem_modified (Std.ExtTreeSet.mem_toList.1 h)
  · exact (Changes.mem_added.1 (Std.ExtTreeSet.mem_toList.1 h)).1

section
variable (roots : Roots) (a : Analysis) (current : Snapshots)

/-- A recorded unit of a removed source. -/
def Purged (unit : Text) : Prop :=
  (∃ source ∈ removedSources a current, Owns roots (some a) source unit) ∧
    ∃ r, a.find? unit = some r

/-- A unit of a source that is there and changed. -/
def Produced (unit : Text) : Prop :=
  ∃ source ∈ changedSources a current, Owns roots (some a) source unit

/-- A unit that exists after the build. -/
def Live (unit : Text) : Prop :=
  Produced roots a current unit ∨ (∃ r, a.find? unit = some r) ∧ ¬ Purged roots a current unit

/-- The source of a unit in a selection: the last changed one that has it, else the one
    recorded for a unit that is not purged. -/
def SourceIn (unit source : Text) : Prop :=
  LastOwner roots (some a) (changedSources a current) unit source ∨
    ¬ Produced roots a current unit ∧ ¬ Purged roots a current unit ∧
      Recorded (some a) source unit

/-- The units that the changes reach. -/
inductive Reached : Text → Prop
  /-- The units of removed and of changed sources. -/
  | seed {unit source : Text} :
      source ∈ removedSources a current ∨ source ∈ changedSources a current →
      Owns roots (some a) source unit → Reached unit
  /-- A recorded unit that depends on one that is reached. -/
  | dependent {unit dependency : Text} {r : UnitRecord} :
      a.find? unit = some r → dependency ∈ r.dependencies → dependency ≠ wildcard →
      Reached dependency → Reached unit
  /-- A live unit that depends on every unit, when a live one is reached. -/
  | spanning {unit other : Text} {r : UnitRecord} :
      Reached other → Live roots a current other →
      a.find? unit = some r → wildcard ∈ r.dependencies → Live roots a current unit →
      Reached unit
  /-- A live unit recorded for the source of one that is reached. -/
  | sibling {unit other source : Text} :
      Reached other → SourceIn roots a current other source →
      Recorded (some a) source unit → Live roots a current unit → Reached unit

end

namespace Impact

/-- An impact that says what the changes do to the units. -/
structure Faithful (roots : Roots) (a : Analysis) (current : Snapshots) (i : Impact) :
    Prop where
  mem_seeds : ∀ unit, unit ∈ i.seeds ↔
    ∃ source, (source ∈ removedSources a current ∨ source ∈ changedSources a current) ∧
      Owns roots (some a) source unit
  mem_purged : ∀ unit, unit ∈ i.purged ↔ Purged roots a current unit
  mem_added : ∀ unit, unit ∈ i.added ↔ Produced roots a current unit ∧
    (a.find? unit = none ∨ Purged roots a current unit)
  getElem?_sources : ∀ unit source : Text, i.sources[unit]? = some source ↔
    SourceIn roots a current unit source

variable {roots : Roots} {a : Analysis} {current : Snapshots} {i : Impact}

theorem has_iff {unit : Text} : a.has unit = true ↔ ∃ r, a.find? unit = some r := by
  rw [Analysis.has, Std.ExtTreeMap.contains_eq_isSome_getElem?, Option.isSome_iff_exists]
  rfl

/-- **The impact of claims** says what the changes do. -/
theorem ofClaims_faithful {removed changed : List Claim}
    (hr : claims roots (some a) (removedSources a current) = .ok removed)
    (hc : claims roots (some a) (changedSources a current) = .ok changed) :
    Faithful roots a current (ofClaims a removed changed) := by
  have hpurged : ∀ unit, unit ∈ (ofClaims a removed changed).purged ↔
      Purged roots a current unit := fun unit => by
    simp only [ofClaims, mem_ofTexts, List.mem_filter, mem_map_claims hr, has_iff]
    rfl
  have hnone : ∀ unit, a.has unit = false ↔ a.find? unit = none := fun unit => by
    rw [← Bool.not_eq_true, has_iff, Option.eq_none_iff_forall_ne_some]
    exact not_exists
  refine ⟨fun unit => ?_, hpurged, fun unit => ?_, fun unit source => ?_⟩
  · simp only [ofClaims, mem_ofTexts, List.mem_append, mem_map_claims hr, mem_map_claims hc,
      or_and_right, exists_or]
  · have hp := hpurged unit
    simp only [ofClaims, mem_ofTexts, List.mem_filter, mem_map_claims hc, Bool.or_eq_true,
      Bool.not_eq_true', hnone, Std.ExtTreeSet.contains_iff_mem] at hp ⊢
    rw [hp]
    rfl
  · have hp : (ofClaims a removed changed).purged.contains unit = false ↔
        ¬ Purged roots a current unit := by
      rw [← hpurged, ← Std.ExtTreeSet.contains_iff_mem, Bool.not_eq_true]
    simp only [ofClaims] at hp ⊢
    rw [getElem?_foldl_claims hc, Std.ExtTreeMap.getElem?_map, Std.ExtTreeMap.getElem?_filter']
    simp only [SourceIn, recorded_some, Option.map_eq_some_iff, Option.filter_eq_some_iff,
      Bool.not_eq_true', hp, Produced, not_exists, not_and, Analysis.find?]
    constructor
    · rintro (h | ⟨hno, r, ⟨hr, hnp⟩, rfl⟩)
      · exact Or.inl h
      · exact Or.inr ⟨hno, hnp, r, hr, rfl⟩
    · rintro (h | ⟨hno, hnp, r, hr, rfl⟩)
      · exact Or.inl h
      · exact Or.inr ⟨hno, r, ⟨hr, hnp⟩, rfl⟩

namespace Faithful

section
variable (hi : Faithful roots a current i)
include hi

theorem mem_sources {unit : Text} : unit ∈ i.sources ↔
    Produced roots a current unit ∨
      (∃ r, a.find? unit = some r) ∧ ¬ Purged roots a current unit := by
  rw [mem_iff_exists]
  simp only [hi.getElem?_sources, SourceIn, recorded_some]
  constructor
  · rintro ⟨source, h | ⟨-, hnp, r, hr, -⟩⟩
    · exact Or.inl ⟨source, h.mem⟩
    · exact Or.inr ⟨⟨r, hr⟩, hnp⟩
  · intro h
    by_cases hp : Produced roots a current unit
    · obtain ⟨source, hs⟩ := exists_lastOwner hp
      exact ⟨source, Or.inl hs⟩
    · obtain ⟨⟨r, hr⟩, hnp⟩ := h.resolve_left hp
      exact ⟨r.source, Or.inr ⟨hp, hnp, r, hr, rfl⟩⟩

/-- **A unit is live** when it exists after the build. -/
theorem live_iff {unit : Text} : i.live unit = true ↔ Live roots a current unit := by
  rw [live, Bool.and_eq_true, Bool.or_eq_true, Bool.not_eq_true', ← Bool.not_eq_true,
    Std.ExtTreeMap.contains_iff_mem, Std.ExtTreeSet.contains_iff_mem,
    Std.ExtTreeSet.contains_iff_mem, hi.mem_sources, hi.mem_purged, hi.mem_added]
  unfold Live
  constructor
  · exact fun h => h.1
  · intro h
    refine ⟨h, ?_⟩
    rcases h with h | h
    · by_cases hp : Purged roots a current unit
      · exact Or.inr ⟨h, Or.inr hp⟩
      · exact Or.inl hp
    · exact Or.inl h.2

theorem mem_followers_iff {reached : TextSet} {unit : Text} :
    unit ∈ followers a i reached ↔ unit ∉ reached ∧ Live roots a current unit ∧
      ∃ r, a.find? unit = some r ∧
        ((∃ other ∈ reached, Live roots a current other) ∧ wildcard ∈ r.dependencies ∨
          ∃ other ∈ reached, SourceIn roots a current other r.source) := by
  have hc : reached.contains unit = false ↔ unit ∉ reached := by
    rw [← Bool.not_eq_true, Std.ExtTreeSet.contains_iff_mem]
  simp only [followers, follows, List.mem_map, List.mem_filter, Prod.exists,
    Std.ExtTreeMap.mem_toList_iff_getElem?_eq_some, Bool.and_eq_true, Bool.not_eq_true',
    Bool.or_eq_true, List.any_eq_true, Std.ExtTreeSet.mem_toList, hi.live_iff, mem_ofTexts,
    Std.ExtTreeSet.contains_iff_mem, List.mem_filterMap, hi.getElem?_sources]
  constructor
  · rintro ⟨u, r, ⟨hr, ⟨hu, hl⟩, h⟩, rfl⟩
    exact ⟨hc.1 hu, hl, r, hr, h⟩
  · rintro ⟨hu, hl, r, hr, h⟩
    exact ⟨unit, r, ⟨hr, ⟨hc.2 hu, hl⟩, h⟩, rfl⟩

end

end Faithful

/-! ## The graph -/

theorem graph_eq : i.graph a =
    i.added.toList.foldl (fun g unit => (g.addNode unit).1) (Graph.ofAnalysis a) := by
  rw [graph, Std.ExtTreeSet.foldl_eq_foldl_toList]

theorem graph_wellFormed : (i.graph a).WellFormed := by
  rw [graph_eq]
  exact (Graph.foldl_addNode_spec (Graph.ofAnalysis_wellFormed a) _).1

theorem edge_graph {unit dependency : Text} : (i.graph a).Edge unit dependency ↔
    ∃ r, a.find? unit = some r ∧ dependency ∈ r.dependencies ∧ dependency ≠ wildcard := by
  rw [graph_eq, (Graph.foldl_addNode_spec (Graph.ofAnalysis_wellFormed a) _).2.2,
    Graph.edge_ofAnalysis]

/-! ## Rounds -/

section
variable {g : Graph}

/-- **The loop ends**: it stops after some rounds, when there is no follower, and every
    round before reached a unit that was not reached. -/
theorem exists_rounds (g : Graph) (a : Analysis) (i : Impact) (reached : TextSet) :
    ∃ n ≤ (unreached a reached).length, spread g a i reached = (round g a i)^[n] reached ∧
      followers a i ((round g a i)^[n] reached) = [] := by
  induction reached using spread.induct g a i with
  | case1 reached h =>
    refine ⟨0, Nat.zero_le _, ?_, h⟩
    rw [spread, dif_pos h]
    rfl
  | case2 reached h ih =>
    obtain ⟨n, hn, he, hf⟩ := ih
    refine ⟨n + 1, ?_, ?_, hf⟩
    · exact Nat.lt_of_le_of_lt hn (length_unreached_round_lt g h)
    · rw [spread, dif_neg h, he]
      rfl

theorem length_unreached_le (a : Analysis) (reached : TextSet) :
    (unreached a reached).length ≤ a.unitCount := by
  rw [Analysis.unitCount, ← Std.ExtTreeMap.length_toList]
  exact List.length_filter_le _ _

theorem mem_round (hg : g.WellFormed) {reached : TextSet} {unit : Text} :
    unit ∈ round g a i reached ↔
      ∃ s, (s ∈ reached ∨ s ∈ followers a i reached) ∧ ReflTransGen g.Edge unit s := by
  simp only [round, Graph.mem_closure hg, Std.ExtTreeSet.mem_insertMany_list,
    List.contains_iff_mem]

/-- A property of what is reached that following and depending keep. -/
theorem forall_mem_rounds (hg : g.WellFormed) {P : Text → Prop}
    (hfollow : ∀ reached : TextSet, (∀ u ∈ reached, P u) → ∀ u ∈ followers a i reached, P u)
    (hedge : ∀ u d, g.Edge u d → P d → P u) {reached : TextSet} (h : ∀ u ∈ reached, P u)
    (n : Nat) : ∀ u ∈ (round g a i)^[n] reached, P u := by
  induction n generalizing reached with
  | zero => exact h
  | succ n ih =>
    refine ih fun u hu => ?_
    obtain ⟨s, hs, hr⟩ := (mem_round hg).1 hu
    have hps : P s := hs.elim (h s) (hfollow reached h s)
    clear hu
    induction hr using ReflTransGen.head_induction_on with
    | refl => exact hps
    | head hab _ ih => exact hedge _ _ hab ih

theorem subset_rounds (hg : g.WellFormed) (n : Nat) {reached : TextSet} {u : Text}
    (h : u ∈ reached) : u ∈ (round g a i)^[n] reached := by
  induction n generalizing reached with
  | zero => exact h
  | succ n ih => exact ih ((mem_round hg).2 ⟨u, Or.inl h, .refl⟩)

/-- After any number of rounds, what depends on something reached is reached. -/
theorem rounds_closed (hg : g.WellFormed) (n : Nat) {reached : TextSet}
    (h : ∀ u d, g.Edge u d → d ∈ reached → u ∈ reached) {u d : Text} (he : g.Edge u d)
    (hd : d ∈ (round g a i)^[n] reached) : u ∈ (round g a i)^[n] reached := by
  induction n generalizing reached with
  | zero => exact h u d he hd
  | succ n ih =>
    refine ih (fun u d he hd => ?_) hd
    obtain ⟨s, hs, hr⟩ := (mem_round hg).1 hd
    exact (mem_round hg).2 ⟨s, hs, hr.head he⟩

end

/-- **What the loop ends with is what is reached.** -/
theorem mem_rounds_iff (hi : Faithful roots a current i) {n : Nat}
    (hn : followers a i ((round (i.graph a) a i)^[n] ((i.graph a).closure i.seeds)) = [])
    {unit : Text} :
    unit ∈ (round (i.graph a) a i)^[n] ((i.graph a).closure i.seeds) ↔
      Reached roots a current unit := by
  have hg : (i.graph a).WellFormed := graph_wellFormed
  have hedge : ∀ u d, (i.graph a).Edge u d → Reached roots a current d →
      Reached roots a current u := fun u d he hd => by
    obtain ⟨r, hr, hm, hw⟩ := edge_graph.1 he
    exact .dependent hr hm hw hd
  have hclosed : ∀ u d, (i.graph a).Edge u d → d ∈ (i.graph a).closure i.seeds →
      u ∈ (i.graph a).closure i.seeds := fun u d he hd => by
    obtain ⟨s, hs, hr⟩ := (Graph.mem_closure hg).1 hd
    exact (Graph.mem_closure hg).2 ⟨s, hs, hr.head he⟩
  constructor
  · refine forall_mem_rounds hg (fun reached hall u hu => ?_) hedge (fun u hu => ?_) n unit
    · obtain ⟨-, hl, r, hr, ⟨⟨v, hv, hlv⟩, hw⟩ | ⟨v, hv, hs⟩⟩ := hi.mem_followers_iff.1 hu
      · exact .spanning (hall v hv) hlv hr hw hl
      · exact .sibling (hall v hv) hs (recorded_some.2 ⟨r, hr, rfl⟩) hl
    · obtain ⟨s, hs, hr⟩ := (Graph.mem_closure hg).1 hu
      obtain ⟨source, hsrc, ho⟩ := (hi.mem_seeds s).1 hs
      clear hu
      induction hr using ReflTransGen.head_induction_on with
      | refl => exact .seed hsrc ho
      | head hab _ ih => exact hedge _ _ hab ih
  · intro h
    -- a unit that is left out would be a follower
    have hfollow : ∀ u, u ∈ followers a i ((round (i.graph a) a i)^[n]
        ((i.graph a).closure i.seeds)) → False := fun u hu => by
      rw [hn] at hu
      exact List.not_mem_nil hu
    induction h with
    | @seed u source hsrc ho =>
      exact subset_rounds hg n ((Graph.mem_closure hg).2
        ⟨u, (hi.mem_seeds u).2 ⟨source, hsrc, ho⟩, .refl⟩)
    | dependent hr hm hw _ ih =>
      exact rounds_closed hg n hclosed (edge_graph.2 ⟨_, hr, hm, hw⟩) ih
    | @spanning u other r _ hlo hr hw hl ih =>
      by_contra hu
      exact hfollow u (hi.mem_followers_iff.2 ⟨hu, hl, r, hr, Or.inl ⟨⟨other, ih, hlo⟩, hw⟩⟩)
    | @sibling u other source _ hs hrec hl ih =>
      by_contra hu
      obtain ⟨r, hr, rfl⟩ := recorded_some.1 hrec
      exact hfollow u (hi.mem_followers_iff.2 ⟨hu, hl, r, hr, Or.inr ⟨other, ih, hs⟩⟩)

/-- **The selected units** are the live ones that the changes reach. -/
theorem mem_selected (hi : Faithful roots a current i) {unit : Text} :
    unit ∈ i.selected (i.graph a) a ↔
      Live roots a current unit ∧ Reached roots a current unit := by
  obtain ⟨n, -, he, hf⟩ := exists_rounds (i.graph a) a i ((i.graph a).closure i.seeds)
  rw [selected, he, Std.ExtTreeSet.mem_filter]
  simp only [Std.ExtTreeSet.get_eq, hi.live_iff, exists_prop, mem_rounds_iff hi hf]
  exact and_comm

end Impact

end Rebuild
