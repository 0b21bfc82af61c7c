/-
  Which units are compiled together.

  * `Tied` relates two units that depend on one another or have one source;
  * `Grouping.members_eq_iff_tied`: two selected units are in one group exactly when a chain of
    tied units connects them, so long as what is selected is closed under such chains;
  * `mem_units_of_reaches` and `mem_units_of_source`: the units of a plan are;
  * `groups_finest`: so the groups of a plan are the finest partition of its units that keeps
    tied units together.
-/
import Rebuild.Proofs.Plan.Groups

namespace Rebuild

open Relation

/-- What has to be compiled together: units that depend on one another, directly or through
    others, and units of one source. -/
def Tied (depends : Text → Text → Prop) (source : Text → Text → Prop) (u v : Text) : Prop :=
  (ReflTransGen depends u v ∧ ReflTransGen depends v u) ∨ ∃ s, source u s ∧ source v s

theorem Tied.symm {depends source : Text → Text → Prop} {u v : Text}
    (h : Tied depends source u v) : Tied depends source v u :=
  h.imp And.symm fun ⟨s, hu, hv⟩ => ⟨s, hv, hu⟩

namespace Grouping

variable {g : Graph} {selected : TextSet} {sources : TextMap Text} {i j : Nat} {u v : Text}

/-- Units are tied by the edges of the graph and by the sources they are compiled from. -/
def TiedIn (g : Graph) (sources : TextMap Text) : Text → Text → Prop :=
  Tied g.Edge fun u s => sources[u]? = some s

/-- Tied, and both selected. -/
def TiedWithin (g : Graph) (selected : TextSet) (sources : TextMap Text) (u v : Text) : Prop :=
  u ∈ selected ∧ v ∈ selected ∧ TiedIn g sources u v

section
variable (hg : g.WellFormed)
include hg

/-- The units of parts that shared sources connect are connected themselves. -/
theorem eqvGen_of_share {a b : Nat} (hab : EqvGen (Share sources (parts g selected)) a b) :
    ((∃ u, IsAt (parts g selected) a u) ↔ ∃ v, IsAt (parts g selected) b v) ∧
      ∀ u v, IsAt (parts g selected) a u → IsAt (parts g selected) b v →
        EqvGen (TiedWithin g selected sources) u v := by
  have hin : ∀ {c w}, IsAt (parts g selected) c w → w ∈ selected := fun h =>
    ((exists_isAt_parts hg).1 ⟨_, h⟩).1
  have hpart : ∀ {c u v}, IsAt (parts g selected) c u → IsAt (parts g selected) c v →
      EqvGen (TiedWithin g selected sources) u v := fun hu hv =>
    .rel _ _ ⟨hin hu, hin hv, Or.inl ((parts_eq_iff hg hu hv).1 rfl)⟩
  induction hab with
  | rel x y h =>
    obtain ⟨u', v', s, hu', hv', hs, ht⟩ := h
    refine ⟨⟨fun _ => ⟨v', hv'⟩, fun _ => ⟨u', hu'⟩⟩, fun u v hu hv => ?_⟩
    have hshare : EqvGen (TiedWithin g selected sources) u' v' :=
      .rel _ _ ⟨hin hu', hin hv', Or.inr ⟨s, hs, ht⟩⟩
    exact ((hpart hu hu').trans _ _ _ hshare).trans _ _ _ (hpart hv' hv)
  | refl x => exact ⟨Iff.rfl, fun u v hu hv => hpart hu hv⟩
  | symm x y _ ih => exact ⟨ih.1.symm, fun u v hu hv => (ih.2 v u hv hu).symm⟩
  | trans x y z _ _ ih₁ ih₂ =>
    refine ⟨ih₁.1.trans ih₂.1, fun u v hu hv => ?_⟩
    obtain ⟨w, hw⟩ := ih₁.1.1 ⟨u, hu⟩
    exact (ih₁.2 u w hu hw).trans _ _ _ (ih₂.2 w v hw hv)

/-- **The units of a group are connected**, by a chain of selected units. -/
theorem eqvGen_of_isAt (hu : IsAt (members g selected sources) i u)
    (hv : IsAt (members g selected sources) i v) :
    EqvGen (TiedWithin g selected sources) u v := by
  obtain ⟨a, ha⟩ := exists_part_of_isAt hu
  obtain ⟨b, hb⟩ := exists_part_of_isAt hv
  exact (eqvGen_of_share hg ((members_eq_iff hg hu hv ha hb).1 rfl)).2 u v ha hb

/-- Selected units that depend on one another are in one group. -/
theorem isAt_of_mutual (hu : IsAt (members g selected sources) i u) (hv : v ∈ selected)
    (huv : ReflTransGen g.Edge u v) (hvu : ReflTransGen g.Edge v u) :
    IsAt (members g selected sources) i v := by
  obtain ⟨a, ha⟩ := exists_part_of_isAt hu
  have hnode : g.contains v = true := by
    rcases huv.cases_tail with he | ⟨w, -, he⟩
    · rw [he]
      exact ((exists_isAt_parts hg).1 ⟨a, ha⟩).2
    · exact he.contains_right
  obtain ⟨j, hj⟩ := (exists_isAt_members hg).2 ⟨hv, hnode⟩
  obtain ⟨b, hb⟩ := exists_part_of_isAt hj
  have hab := (parts_eq_iff hg ha hb).2 ⟨huv, hvu⟩
  exact (members_eq_iff hg hu hj ha hb).2 (hab ▸ .refl a) ▸ hj

end

/-! ## Chains that leave what is selected -/

/-- What is selected is closed: under depending on it, and under sharing a source with it. -/
structure Closed (g : Graph) (selected : TextSet) (sources : TextMap Text) : Prop where
  contains : ∀ u ∈ selected, g.contains u = true
  of_reaches : ∀ u ∈ selected, ∀ v ∈ sources, ReflTransGen g.Edge v u → v ∈ selected
  of_source : ∀ u ∈ selected, ∀ v s : Text, sources[u]? = some s → sources[v]? = some s →
    v ∈ selected

/-- The unit and one of group `i` depend on one another. -/
def Near (g : Graph) (selected : TextSet) (sources : TextMap Text) (i : Nat) (u : Text) : Prop :=
  ∃ w, IsAt (members g selected sources) i w ∧ ReflTransGen g.Edge w u ∧ ReflTransGen g.Edge u w

section
variable (hg : g.WellFormed) (hc : Closed g selected sources)
include hg hc

/-- A tie does not lead away from a group: to a unit of it or, through units that are not
    selected, to one that depends on it both ways. -/
theorem Near.tied (hu : Near g selected sources i u) (huv : TiedIn g sources u v) :
    Near g selected sources i v := by
  obtain ⟨w, hw, hwu, huw⟩ := hu
  rcases huv with ⟨huv, hvu⟩ | ⟨s, hs, ht⟩
  · exact ⟨w, hw, hwu.trans huv, hvu.trans huw⟩
  · have hws : w ∈ selected := ((exists_isAt_members hg).1 ⟨i, hw⟩).1
    have hus : u ∈ selected := hc.of_reaches w hws u (mem_iff_exists.2 ⟨s, hs⟩) huw
    have hvs : v ∈ selected := hc.of_source u hus v s hs ht
    have hui := isAt_of_mutual hg hw hus hwu huw
    obtain ⟨j, hj⟩ := (exists_isAt_members hg).2 ⟨hvs, hc.contains v hvs⟩
    obtain ⟨a, ha⟩ := exists_part_of_isAt hui
    obtain ⟨b, hb⟩ := exists_part_of_isAt hj
    have hij := (members_eq_iff hg hui hj ha hb).2 (.rel a b ⟨u, v, s, ha, hb, hs, ht⟩)
    exact ⟨v, hij ▸ hj, .refl, .refl⟩

theorem near_iff_of_eqvGen (h : EqvGen (TiedIn g sources) u v) :
    Near g selected sources i u ↔ Near g selected sources i v := by
  induction h with
  | rel x y hxy => exact ⟨fun hx => hx.tied hg hc hxy, fun hy => hy.tied hg hc hxy.symm⟩
  | refl x => exact Iff.rfl
  | symm x y _ ih => exact ih.symm
  | trans x y z _ _ ih₁ ih₂ => exact ih₁.trans ih₂

/-- **Two selected units are in one group** iff a chain of ties connects them. -/
theorem members_eq_iff_tied (hu : IsAt (members g selected sources) i u)
    (hv : IsAt (members g selected sources) j v) : i = j ↔ EqvGen (TiedIn g sources) u v := by
  constructor
  · rintro rfl
    exact (eqvGen_of_isAt hg hu hv).mono fun _ _ h => h.2.2
  · intro h
    obtain ⟨w, hw, hwv, hvw⟩ := (near_iff_of_eqvGen hg hc h).1 ⟨u, hu, .refl, .refl⟩
    have hvs : v ∈ selected := ((exists_isAt_members hg).1 ⟨j, hv⟩).1
    exact members_apart hg i j v (isAt_of_mutual hg hw hvs hwv hvw) hv

end

end Grouping

/-! ## What a plan selects is closed -/

/-- A recorded unit depends on another one.  A dependency on every unit is none of these. -/
def DependsOn (a : Analysis) (unit dependency : Text) : Prop :=
  ∃ r, a.find? unit = some r ∧ dependency ∈ r.dependencies ∧ dependency ≠ wildcard

variable {roots : Roots} {policy : Policy} {loaded : LoadOutcome} {current : Snapshots}
  {a : Analysis} {plan : Plan} {unit other source : Text}

/-- The units that a plan adds to the graph of the recorded ones depend on nothing. -/
theorem edge_planGraph : (planGraph (some a) plan).Edge unit other ↔ DependsOn a unit other := by
  obtain ⟨-, -, hedge⟩ :=
    Graph.foldl_addNode_spec (Graph.ofAnalysis_wellFormed a) plan.units.toList
  exact (hedge unit other).trans Graph.edge_ofAnalysis

theorem SourceIn.live (h : SourceIn roots a current unit source) : Live roots a current unit := by
  rcases h with hl | ⟨-, hnp, hrec⟩
  · exact Or.inl ⟨source, hl.mem⟩
  · obtain ⟨r, hr, -⟩ := recorded_some.1 hrec
    exact Or.inr ⟨⟨r, hr⟩, hnp⟩

theorem Reached.of_reaches (h : Reached roots a current other)
    (hr : ReflTransGen (DependsOn a) unit other) : Reached roots a current unit := by
  induction hr using ReflTransGen.head_induction_on with
  | refl => exact h
  | head hd _ ih =>
    obtain ⟨r, hr, hm, hw⟩ := hd
    exact .dependent hr hm hw ih

section
variable (hu : loaded.usable? = some a) (h : select roots policy loaded current = .ok plan)
  (hm : other ∈ plan.units)
include hu h hm

/-- **What depends on a unit of a plan** is a unit of it too, if it has a source. -/
theorem mem_units_of_reaches (hs : Assigned roots a current plan.kind unit source)
    (hr : ReflTransGen (DependsOn a) unit other) : unit ∈ plan.units := by
  cases hk : plan.kind with
  | incremental =>
    rw [hk] at hs
    obtain ⟨-, hreached⟩ := (mem_units_iff hu h hk).1 hm
    exact (mem_units_iff hu h hk).2 ⟨hs.live, hreached.of_reaches hr⟩
  | full =>
    rw [hk] at hs
    exact (mem_units_of_full hu h hk).2 ⟨source, hs.mem⟩

/-- **What has the source of a unit of a plan** is a unit of it too. -/
theorem mem_units_of_source (ho : Assigned roots a current plan.kind other source)
    (hs : Assigned roots a current plan.kind unit source) : unit ∈ plan.units := by
  cases hk : plan.kind with
  | incremental =>
    rw [hk] at ho hs
    obtain ⟨-, hreached⟩ := (mem_units_iff hu h hk).1 hm
    have hlive := hs.live
    rcases hs with hl | ⟨-, -, hrec⟩
    · exact mem_units_of_produced hu h hk ⟨source, hl.mem⟩
    · exact (mem_units_iff hu h hk).2 ⟨hlive, .sibling hreached ho hrec hlive⟩
  | full =>
    rw [hk] at hs
    exact (mem_units_of_full hu h hk).2 ⟨source, hs.mem⟩

end

/-! ## The groups of a plan -/

/-- The groups of a plan are the finest partition of its units that keeps together what
    depends on one another and what has one source. -/
structure Plan.FinelyGrouped (roots : Roots) (a : Analysis) (current : Snapshots) (plan : Plan) :
    Prop where
  /-- The groups hold the units of the plan, each in one group. -/
  mem_units_iff : ∀ unit, unit ∈ plan.units ↔
    ∃! i : Nat, ∃ G : Group, plan.groups[i]? = some G ∧ unit ∈ G.units
  nonempty : ∀ G ∈ plan.groups, ∃ unit, unit ∈ G.units
  together_iff : ∀ (i j : Nat) (G H : Group) (u v : Text), plan.groups[i]? = some G →
    plan.groups[j]? = some H → u ∈ G.units → v ∈ H.units →
      (i = j ↔ EqvGen (Tied (DependsOn a) (Assigned roots a current plan.kind)) u v)
  /-- The chain that connects two units of a group does not leave the plan. -/
  within : ∀ G ∈ plan.groups, ∀ u ∈ G.units, ∀ v ∈ G.units,
    EqvGen (fun x y => x ∈ plan.units ∧ y ∈ plan.units ∧
      Tied (DependsOn a) (Assigned roots a current plan.kind) x y) u v
  /-- Each unit stands with its source. -/
  source_iff : ∀ G ∈ plan.groups, ∀ unit ∈ G.units, ∀ source : Text,
    G.units[unit]? = some source ↔ Assigned roots a current plan.kind unit source
  mem_sources_iff : ∀ G ∈ plan.groups, ∀ source, source ∈ G.sources ↔
    ∃ unit ∈ G.units, Assigned roots a current plan.kind unit source
  /-- No source is in two groups. -/
  sources_apart : ∀ (i j : Nat) (G H : Group) (source : Text), plan.groups[i]? = some G →
    plan.groups[j]? = some H → source ∈ G.sources → source ∈ H.sources → i = j
  mem_needs_iff : ∀ (i : Nat) (G : Group), plan.groups[i]? = some G → ∀ d, d ∈ G.needs ↔
    d ≠ i ∧ ∃ H : Group, plan.groups[d]? = some H ∧ ∃ u ∈ G.units, ∃ v ∈ H.units, DependsOn a u v

section
variable (hu : loaded.usable? = some a) (h : select roots policy loaded current = .ok plan)
include hu h

theorem closed_units {sources : TextMap Text} (hsources : ∀ unit source : Text,
    sources[unit]? = some source ↔ Assigned roots a current plan.kind unit source) :
    Grouping.Closed (planGraph (some a) plan) plan.units sources where
  contains := (planGraph_spec (some a) plan).2
  of_reaches u hm v hv hr := by
    obtain ⟨s, hs⟩ := mem_iff_exists.1 hv
    have hr := ReflTransGen.mono (fun _ _ => edge_planGraph.1) v u hr
    exact mem_units_of_reaches hu h hm ((hsources v s).1 hs) hr
  of_source u hm v s hs ht :=
    mem_units_of_source hu h hm ((hsources u s).1 hs) ((hsources v s).1 ht)

/-- The groups of a plan are those of units that are closed under ties. -/
theorem groups_eq_make_closed : ∃ sources : TextMap Text,
    plan.groups = Grouping.make (planGraph (some a) plan) plan.units sources ∧
      Grouping.Closed (planGraph (some a) plan) plan.units sources ∧
        Grouping.TiedIn (planGraph (some a) plan) sources =
          Tied (DependsOn a) (Assigned roots a current plan.kind) := by
  obtain ⟨sources, hgroups, hsources, -⟩ := groups_eq_make hu h
  have hedge : (planGraph (some a) plan).Edge = DependsOn a :=
    funext₂ fun u v => propext edge_planGraph
  have hassigned : (fun u s : Text => sources[u]? = some s) =
      Assigned roots a current plan.kind := funext₂ fun u s => propext (hsources u s)
  exact ⟨sources, hgroups, closed_units hu h hsources, by rw [Grouping.TiedIn, hedge, hassigned]⟩

theorem mem_units_iff_existsUnique {unit : Text} : unit ∈ plan.units ↔
    ∃! i : Nat, ∃ G : Group, plan.groups[i]? = some G ∧ unit ∈ G.units := by
  obtain ⟨sources, hgroups, hc, -⟩ := groups_eq_make_closed hu h
  obtain ⟨hg, -⟩ := planGraph_spec (some a) plan
  simp only [hgroups, Grouping.exists_mem_units_iff]
  constructor
  · intro hm
    obtain ⟨i, hi⟩ : ∃ i, IsAt (Grouping.members (planGraph (some a) plan) plan.units sources) i
        unit := (Grouping.exists_isAt_members hg).2 ⟨hm, hc.contains unit hm⟩
    exact ⟨i, hi, fun j hj => Grouping.members_apart hg j i unit hj hi⟩
  · rintro ⟨i, hi, -⟩
    exact ((Grouping.exists_isAt_members hg).1 ⟨i, hi⟩).1

/-- A unit of a group has the source that the plan assigns to it. -/
theorem getElem?_group_iff {G : Group} (hG : G ∈ plan.groups) {unit : Text} (hm : unit ∈ G.units)
    {source : Text} :
    G.units[unit]? = some source ↔ Assigned roots a current plan.kind unit source := by
  obtain ⟨s, hs⟩ := mem_iff_exists.1 hm
  have hassigned := ((exists_group_iff hu h).1 ⟨G, hG, hs⟩).2
  constructor
  · intro he
    exact ((exists_group_iff hu h).1 ⟨G, hG, he⟩).2
  · intro ha
    obtain ⟨sources, -, hsources, -⟩ := groups_eq_make hu h
    have he := (hsources unit s).2 hassigned
    rw [(hsources unit source).2 ha] at he
    rw [hs, ← he]

theorem mem_group_sources_iff {G : Group} (hG : G ∈ plan.groups) {source : Text} :
    source ∈ G.sources ↔ ∃ unit ∈ G.units, Assigned roots a current plan.kind unit source := by
  rw [mem_group_sources hu h hG]
  constructor
  · rintro ⟨unit, hs⟩
    have hm := mem_iff_exists.2 ⟨source, hs⟩
    exact ⟨unit, hm, (getElem?_group_iff hu h hG hm).1 hs⟩
  · rintro ⟨unit, hm, hs⟩
    exact ⟨unit, (getElem?_group_iff hu h hG hm).2 hs⟩

section
variable {i j : Nat} {G H : Group} (hG : plan.groups[i]? = some G)
include hG

theorem mem_group_needs_iff {d : Nat} : d ∈ G.needs ↔ d ≠ i ∧
    ∃ H : Group, plan.groups[d]? = some H ∧ ∃ u ∈ G.units, ∃ v ∈ H.units, DependsOn a u v := by
  obtain ⟨sources, hgroups, -⟩ := groups_eq_make_closed hu h
  obtain ⟨hg, -⟩ := planGraph_spec (some a) plan
  rw [Grouping.mem_needs hg (hgroups ▸ hG)]
  simp only [← Grouping.exists_mem_units_iff, ← hgroups, edge_planGraph]
  refine and_congr_right fun _ => ⟨?_, ?_⟩
  · rintro ⟨u, hm, v, he, H, hH, hv⟩
    exact ⟨H, hH, u, hm, v, hv, he⟩
  · rintro ⟨H, hH, u, hm, v, hv, he⟩
    exact ⟨u, hm, v, he, H, hH, hv⟩

variable {u v : Text} (hm : u ∈ G.units)
include hm

/-- **Two units of a plan are in one group** iff a chain of ties connects them. -/
theorem group_eq_iff_tied (hH : plan.groups[j]? = some H) (hv : v ∈ H.units) :
    i = j ↔ EqvGen (Tied (DependsOn a) (Assigned roots a current plan.kind)) u v := by
  obtain ⟨sources, hgroups, hc, htied⟩ := groups_eq_make_closed hu h
  obtain ⟨hg, -⟩ := planGraph_spec (some a) plan
  rw [hgroups] at hG hH
  rw [← htied]
  exact Grouping.members_eq_iff_tied hg hc ((Grouping.mem_units hG).1 hm)
    ((Grouping.mem_units hH).1 hv)

/-- The chain does not leave the plan. -/
theorem eqvGen_of_mem_group (hv : v ∈ G.units) :
    EqvGen (fun x y => x ∈ plan.units ∧ y ∈ plan.units ∧
      Tied (DependsOn a) (Assigned roots a current plan.kind) x y) u v := by
  obtain ⟨sources, hgroups, -, htied⟩ := groups_eq_make_closed hu h
  obtain ⟨hg, -⟩ := planGraph_spec (some a) plan
  rw [hgroups] at hG
  rw [← htied]
  exact Grouping.eqvGen_of_isAt hg ((Grouping.mem_units hG).1 hm) ((Grouping.mem_units hG).1 hv)

end

/-- **The groups of a plan** are the finest partition of its units that keeps together what
    depends on one another and what has one source. -/
theorem groups_finest : plan.FinelyGrouped roots a current where
  mem_units_iff unit := mem_units_iff_existsUnique hu h
  nonempty G hG := by
    obtain ⟨sources, hgroups, -⟩ := groups_eq_make_closed hu h
    obtain ⟨i, hi⟩ := List.mem_iff_getElem?.1 (hgroups ▸ hG)
    exact Grouping.exists_mem_units hi
  together_iff i j G H u v hG hH hm hv := group_eq_iff_tied hu h hG hm hH hv
  within G hG u hm v hv := by
    obtain ⟨i, hi⟩ := List.mem_iff_getElem?.1 hG
    exact eqvGen_of_mem_group hu h hi hm hv
  source_iff G hG unit hm source := getElem?_group_iff hu h hG hm
  mem_sources_iff G hG source := mem_group_sources_iff hu h hG
  sources_apart i j G H source hG hH hs ht := eq_of_mem_group_sources h hG hH hs ht
  mem_needs_iff i G hG d := mem_group_needs_iff hu h hG

end

/-- `B` and `C` depend on each other in no way; their source puts them into one group. -/
theorem groups_finest_fiveUnits : ∃ plan,
    select ⟨["/p"], "l"⟩ {} (.ofAnalysis fiveUnits) fiveUnitsEdited = .ok plan ∧
      plan.groups.map (·.units.keys) = [[("A" : Text)], ["B", "C"], ["D"]] ∧
      plan.FinelyGrouped ⟨["/p"], "l"⟩ fiveUnits fiveUnitsEdited := by
  have hgroups : (select ⟨["/p"], "l"⟩ {} (.ofAnalysis fiveUnits) fiveUnitsEdited).toOption.map
      (·.groups.map (·.units.keys)) = some [[("A" : Text)], ["B", "C"], ["D"]] := by decide +kernel
  obtain ⟨plan, h, he⟩ := exists_plan hgroups
  exact ⟨plan, h, he, groups_finest rfl h⟩

end Rebuild
