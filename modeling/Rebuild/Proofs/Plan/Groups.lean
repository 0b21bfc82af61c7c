/-
  The groups of a plan, for either kind of plan.

  * `planGraph` is the graph that the groups of a plan are made from (`groups_eq_make`);
  * `Assigned` is the source of a unit in a plan;
  * `exists_group_iff`: the groups hold the units of the plan with their sources;
  * `mem_units_or_mem_purged`: a source is compiled with all units recorded for it;
  * `eq_of_mem_group_sources`: no source is in two groups.
-/
import Rebuild.Proofs.Plan.Selection

namespace Rebuild

variable {roots : Roots} {policy : Policy} {loaded : LoadOutcome} {current : Snapshots}
  {a : Analysis} {plan : Plan}

/-- The recorded dependencies, with the units of a plan as nodes. -/
def planGraph (prior : Option Analysis) (plan : Plan) : Graph :=
  plan.units.toList.foldl (fun g unit => (g.addNode unit).1)
    ((prior.map Graph.ofAnalysis).getD .empty)

theorem planGraph_spec (prior : Option Analysis) (plan : Plan) :
    (planGraph prior plan).WellFormed ∧
      ∀ unit ∈ plan.units, (planGraph prior plan).contains unit = true := by
  have hg : ((prior.map Graph.ofAnalysis).getD .empty).WellFormed := by
    cases prior with
    | none => exact Graph.empty_wellFormed
    | some a => exact Graph.ofAnalysis_wellFormed a
  obtain ⟨h1, h2, -⟩ := Graph.foldl_addNode_spec hg plan.units.toList
  exact ⟨h1, fun unit hu => (h2 unit).2 (Or.inl (Std.ExtTreeSet.mem_toList.2 hu))⟩

/-- Names that are nodes already need not be added. -/
theorem Graph.foldl_addNode_filter {g h : Graph} (names : List Text)
    (hsub : ∀ n, h.contains n = true → g.contains n = true) :
    names.foldl (fun g n => (g.addNode n).1) g =
      (names.filter (!h.contains ·)).foldl (fun g n => (g.addNode n).1) g := by
  induction names generalizing g with
  | nil => rfl
  | cons n names ih =>
    have hsub' : ∀ m, h.contains m = true → (g.addNode n).1.contains m = true := fun m hm =>
      contains_addNode.2 (Or.inr (hsub m hm))
    rw [List.foldl_cons, ih hsub']
    cases hn : h.contains n with
    | true =>
      rw [addNode_of_contains (hsub n hn), List.filter_cons_of_neg (by simp [hn])]
    | false => rw [List.filter_cons_of_pos (by simp [hn]), List.foldl_cons]

theorem planGraph_incremental {i : Impact} (hi : i.Faithful roots a current)
    (hp : plan.units = i.selected (i.graph a) a) : planGraph (some a) plan = i.graph a := by
  have hadded : ∀ unit ∈ i.added, unit ∈ plan.units := fun unit hu => by
    obtain ⟨hpr, -⟩ := (hi.mem_added unit).1 hu
    obtain ⟨source, hs, ho⟩ := hpr
    rw [hp, Impact.mem_selected hi]
    exact ⟨Or.inl ⟨source, hs, ho⟩, .seed (Or.inr hs) ho⟩
  -- units of the plan that are no nodes yet are those that were added
  have hsame : (plan.units.filter fun n => !(Graph.ofAnalysis a).contains n) =
      i.added.filter fun n => !(Graph.ofAnalysis a).contains n := by
    apply Std.ExtTreeSet.ext_mem
    intro unit
    rw [Std.ExtTreeSet.mem_filter, Std.ExtTreeSet.mem_filter]
    simp only [Std.ExtTreeSet.get_eq, exists_prop, Bool.not_eq_true']
    refine and_congr_left fun hno => ⟨fun hu => ?_, hadded unit⟩
    rw [hp, Impact.mem_selected hi] at hu
    have hnone : a.find? unit = none := by
      rw [Option.eq_none_iff_forall_ne_some]
      intro r hr
      have := Graph.contains_ofAnalysis.2 ⟨unit, r, hr, Or.inl rfl⟩
      simp [hno] at this
    rcases hu.1 with h | ⟨⟨r, hr⟩, -⟩
    · exact (hi.mem_added unit).2 ⟨h, Or.inl hnone⟩
    · rw [hnone] at hr
      cases hr
  rw [planGraph, Impact.graph_eq, Graph.foldl_addNode_filter _ fun n h => h,
    Graph.foldl_addNode_filter i.added.toList fun n h => h]
  simp only [Option.map_some, Option.getD_some]
  rw [← Std.ExtTreeSet.toList_filter, hsame, Std.ExtTreeSet.toList_filter]

/-- The source of a unit in a plan: the one of the selection or, when everything is
    compiled, the last one that is there and has the unit. -/
def Assigned (roots : Roots) (a : Analysis) (current : Snapshots) (kind : PlanKind)
    (unit source : Text) : Prop :=
  match kind with
  | .incremental => SourceIn roots a current unit source
  | .full => LastOwner roots (some a) (presentPaths current) unit source

/-- **The groups of a plan** are made from its graph, its units and their sources. -/
theorem groups_eq_make (hu : loaded.usable? = some a)
    (h : select roots policy loaded current = .ok plan) : ∃ sources : TextMap Text,
      plan.groups = Grouping.make (planGraph (some a) plan) plan.units sources ∧
        (∀ unit source : Text, sources[unit]? = some source ↔
          Assigned roots a current plan.kind unit source) ∧
        ∀ unit ∈ plan.units, unit ∈ sources := by
  cases hk : plan.kind with
  | incremental =>
    obtain ⟨i, hi, -, -, hunits, hgroups, -⟩ := incremental_eq_ok hu h hk
    refine ⟨i.sources, ?_, hi.getElem?_sources, fun unit hm => ?_⟩
    · rw [planGraph_incremental hi hunits, hgroups]
    · rw [hunits, Impact.mem_selected hi] at hm
      exact hi.mem_sources.2 hm.1
  | full =>
    obtain ⟨reason, hf⟩ := fullPlan_of_full hu h hk
    obtain ⟨-, -, -, claimed, hc, hgroups, hunits⟩ := fullPlan_eq_ok hf
    have hs := getElem?_foldl_claims hc ∅
    generalize (claimed.foldl (fun m c => m.insert c.1 c.2) ∅ : TextMap Text) = sources
      at hgroups hunits hs
    refine ⟨sources, ?_, fun unit source => ?_, fun unit hm => ?_⟩
    · rw [hgroups, planGraph, hunits, toList_ofTexts_keys]
      rfl
    · rw [hs]
      simp [Assigned]
    · rw [hunits, mem_ofTexts, Std.ExtTreeMap.mem_keys] at hm
      exact hm

/-- **The units of the groups** are those of the plan, with their sources. -/
theorem exists_group_iff (hu : loaded.usable? = some a)
    (h : select roots policy loaded current = .ok plan) {unit source : Text} :
    (∃ G ∈ plan.groups, G.units[unit]? = some source) ↔
      unit ∈ plan.units ∧ Assigned roots a current plan.kind unit source := by
  obtain ⟨sources, hgroups, hsources, hmem⟩ := groups_eq_make hu h
  obtain ⟨hg, hnode⟩ := planGraph_spec (some a) plan
  have hunit : (∃ i, IsAt (Grouping.members (planGraph (some a) plan) plan.units sources) i
      unit) ↔ unit ∈ plan.units := by
    rw [Grouping.exists_isAt_members hg]
    exact ⟨fun h => h.1, fun h => ⟨h, hnode unit h⟩⟩
  have hsrc : unit ∈ plan.units → (sources.getD unit [] = source ↔
      Assigned roots a current plan.kind unit source) := fun hm => by
    obtain ⟨s, hs⟩ := mem_iff_exists.1 (hmem unit hm)
    rw [← hsources, Std.ExtTreeMap.getD_eq_getD_getElem?, hs]
    simp
  rw [hgroups, ← hunit]
  constructor
  · rintro ⟨G, hG, he⟩
    obtain ⟨i, hi⟩ := List.mem_iff_getElem?.1 hG
    obtain ⟨hat, hs⟩ := (Grouping.getElem?_units hi).1 he
    exact ⟨⟨i, hat⟩, (hsrc (hunit.1 ⟨i, hat⟩)).1 hs⟩
  · rintro ⟨⟨i, hat⟩, ha⟩
    obtain ⟨G, hG⟩ := Grouping.exists_getElem?_make hat
    exact ⟨G, List.mem_of_getElem? hG,
      (Grouping.getElem?_units hG).2 ⟨hat, (hsrc (hunit.1 ⟨i, hat⟩)).2 ha⟩⟩

/-- The sources of a group are those of its units. -/
theorem mem_group_sources (hu : loaded.usable? = some a)
    (h : select roots policy loaded current = .ok plan) {G : Group} (hG : G ∈ plan.groups)
    {source : Text} : source ∈ G.sources ↔ ∃ unit : Text, G.units[unit]? = some source := by
  obtain ⟨sources, hgroups, -, hmem⟩ := groups_eq_make hu h
  obtain ⟨hg, -⟩ := planGraph_spec (some a) plan
  rw [hgroups] at hG
  obtain ⟨i, hi⟩ := List.mem_iff_getElem?.1 hG
  rw [Grouping.mem_sources hi]
  simp only [Grouping.getElem?_units hi, Grouping.mem_units hi,
    Std.ExtTreeMap.getD_eq_getD_getElem?]
  refine exists_congr fun unit => and_congr_right fun hat => ?_
  obtain ⟨s, hs⟩ := mem_iff_exists.1 (hmem unit ((Grouping.exists_isAt_members hg).1 ⟨i, hat⟩).1)
  simp [hs]

theorem mem_units_of_mem_group (hu : loaded.usable? = some a)
    (h : select roots policy loaded current = .ok plan) {G : Group} (hG : G ∈ plan.groups)
    {unit : Text} (hm : unit ∈ G.units) : unit ∈ plan.units := by
  obtain ⟨source, hs⟩ := mem_iff_exists.1 hm
  exact ((exists_group_iff hu h).1 ⟨G, hG, hs⟩).1

/-- **The units recorded for a source that is compiled** are compiled, or forgotten. -/
theorem mem_units_or_mem_purged (hu : loaded.usable? = some a)
    (h : select roots policy loaded current = .ok plan) (hk : plan.kind = .incremental)
    {G : Group} (hG : G ∈ plan.groups) {unit : Text} {r : UnitRecord}
    (hr : a.find? unit = some r) (hs : r.source ∈ G.sources) :
    unit ∈ plan.units ∨ unit ∈ plan.purged := by
  obtain ⟨other, hother⟩ := (mem_group_sources hu h hG).1 hs
  obtain ⟨hm, hsource⟩ := (exists_group_iff hu h).1 ⟨G, hG, hother⟩
  rw [hk] at hsource
  obtain ⟨-, hreached⟩ := (mem_units_iff hu h hk).1 hm
  have hrec : Recorded (some a) r.source unit := recorded_some.2 ⟨r, hr, rfl⟩
  by_cases hp : unit ∈ plan.purged
  · exact Or.inr hp
  · have hl := live_of_notMem_purged hu h hk ⟨r, hr⟩ hp
    exact Or.inl ((mem_units_iff hu h hk).2 ⟨hl, .sibling hreached hsource hrec hl⟩)

/-- Without a prior analysis there is at most one group, of all sources. -/
theorem groups_of_no_prior (hu : loaded.usable? = none)
    (h : select roots policy loaded current = .ok plan) (i : Nat) (G : Group)
    (hG : plan.groups[i]? = some G) :
    i = 0 ∧ G.needs = ∅ ∧ G.sources = TextSet.ofTexts (presentPaths current) := by
  rcases select_eq_ok h with ⟨-, hf⟩ | ⟨b, hb, -⟩
  · obtain ⟨-, -, -, claimed, -, hgroups, -⟩ := fullPlan_eq_ok hf
    rw [hgroups, fullGroups] at hG
    split at hG
    · simp at hG
    · rw [List.getElem?_singleton] at hG
      split at hG
      · next h0 =>
        cases hG
        exact ⟨h0, rfl, rfl⟩
      · cases hG
  · rw [hu] at hb
    cases hb

/-! ## Groups are apart -/

section
variable (h : select roots policy loaded current = .ok plan) {i j : Nat} {G H : Group}
  (hG : plan.groups[i]? = some G) (hH : plan.groups[j]? = some H)
include h hG hH

theorem eq_of_mem_group_units {unit : Text} (hi : unit ∈ G.units) (hj : unit ∈ H.units) :
    i = j := by
  cases hu : loaded.usable? with
  | none =>
    have hi := (groups_of_no_prior hu h i G hG).1
    have hj := (groups_of_no_prior hu h j H hH).1
    omega
  | some a =>
    obtain ⟨sources, hgroups, -, -⟩ := groups_eq_make hu h
    obtain ⟨hg, -⟩ := planGraph_spec (some a) plan
    rw [hgroups] at hG hH
    exact Grouping.members_apart hg i j unit ((Grouping.mem_units hG).1 hi)
      ((Grouping.mem_units hH).1 hj)

/-- **No source is in two groups.** -/
theorem eq_of_mem_group_sources {source : Text} (hi : source ∈ G.sources)
    (hj : source ∈ H.sources) : i = j := by
  cases hu : loaded.usable? with
  | none =>
    have hi := (groups_of_no_prior hu h i G hG).1
    have hj := (groups_of_no_prior hu h j H hH).1
    omega
  | some a =>
    obtain ⟨sources, hgroups, -, -⟩ := groups_eq_make hu h
    obtain ⟨hg, -⟩ := planGraph_spec (some a) plan
    rw [hgroups] at hG hH
    exact Grouping.eq_of_mem_sources hg hG hH hi hj

end

end Rebuild
