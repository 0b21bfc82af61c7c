/-
  Plans when nothing is recorded.

  There is no record before the first build, and none after a first build that came to
  nothing.  But in the second case there is an analysis, with nothing in it.

  * `isEmpty_merge_of_failed`: a first build without a group that succeeds leaves such an
    analysis;
  * `separate_of_isEmpty`: from it every unit is compiled by itself, in no order;
  * `joint_of_absent`: without an analysis all units are compiled together;
  * `groups_unrecorded`: so the two plans agree exactly when there is at most one source.
-/
import Rebuild.Proofs.Plan.Deletion
import Rebuild.Proofs.Plan.Together

namespace Rebuild

open Relation

variable {roots : Roots} {policy : Policy} {loaded absent : LoadOutcome} {current : Snapshots}
  {a : Analysis} {plan first : Plan} {unit source : Text}

/-! ## An analysis without records -/

theorem Analysis.isEmpty_iff : a.isEmpty = true ↔
    (∀ unit, a.find? unit = none) ∧ ∀ path : Text, a.snapshots[path]? = none := by
  rw [isEmpty, Bool.and_eq_true, Std.ExtTreeMap.isEmpty_iff, Std.ExtTreeMap.isEmpty_iff]
  constructor
  · rintro ⟨hunits, hsnapshots⟩
    exact ⟨fun unit => by simp [find?, hunits], fun path => by simp [hsnapshots]⟩
  · rintro ⟨hunits, hsnapshots⟩
    refine ⟨Std.ExtTreeMap.ext_getElem? fun unit => ?_, Std.ExtTreeMap.ext_getElem? fun path => ?_⟩
    · exact (hunits unit).trans (by simp)
    · exact (hsnapshots path).trans (by simp)

/-- **A first build of which nothing succeeds** leaves an analysis without records. -/
theorem isEmpty_merge_of_failed {outcomes : List Outcome} {fingerprint : Text}
    (hf : ∀ i < plan.groups.length, Merge.Failed outcomes i) :
    (merge none plan outcomes fingerprint).isEmpty = true := by
  refine Analysis.isEmpty_iff.2 ⟨fun unit => ?_, fun path => ?_⟩
  · rw [Option.eq_none_iff_forall_ne_some]
    intro r hr
    rcases Merge.find?_merge_origin hr with ⟨i, G, hG, ⟨_, _, hs, -⟩, -⟩ | hr
    · exact (hf i (List.getElem?_eq_some_iff.1 hG).1).not_succeeded hs
    · obtain ⟨-, b, hb, -⟩ := Merge.find?_start.1 hr
      cases hb
  · rcases Merge.snapshots_merge none plan outcomes fingerprint path with
      ⟨i, G, hG, -, hm⟩ | ⟨-, hm⟩
    · rw [hm, (hf i (List.getElem?_eq_some_iff.1 hG).1).noted_eq]
    · rw [hm, Option.eq_none_iff_forall_ne_some]
      intro s hs
      obtain ⟨-, b, hb, -⟩ := Merge.getElem?_start.1 hs
      cases hb

section
variable (ha : a.isEmpty = true)
include ha

theorem find?_ne_some_of_isEmpty {r : UnitRecord} : a.find? unit ≠ some r := by
  rw [(Analysis.isEmpty_iff.1 ha).1]
  exact Option.some_ne_none r ∘ Eq.symm

theorem not_recorded_of_isEmpty : ¬ Recorded (some a) source unit := by
  rw [recorded_some]
  rintro ⟨r, hr, -⟩
  exact find?_ne_some_of_isEmpty ha hr

/-- The unit of a source is the one that its place names. -/
theorem owns_iff_of_isEmpty :
    Owns roots (some a) source unit ↔ roots.unitName source = .ok unit := by
  simp [Owns, not_recorded_of_isEmpty ha]

theorem not_has_of_isEmpty : ¬ a.snapshots.has source = true := by
  rw [Snapshots.has_iff]
  rintro ⟨s, hs, -⟩
  rw [(Analysis.isEmpty_iff.1 ha).2] at hs
  cases hs

theorem mem_changedSources_of_isEmpty :
    source ∈ changedSources a current ↔ current.has source = true := by
  refine ⟨has_of_mem_changedSources, fun hs => ?_⟩
  have hadded := Changes.mem_added.2 ⟨hs, not_has_of_isEmpty ha⟩
  exact List.mem_append_right _ (Std.ExtTreeSet.mem_toList.2 hadded)

theorem not_dependsOn_of_isEmpty {dependency : Text} : ¬ DependsOn a unit dependency := by
  rintro ⟨r, hr, -⟩
  exact find?_ne_some_of_isEmpty ha hr

theorem produced_iff_of_isEmpty : Produced roots a current unit ↔
    ∃ source, current.has source = true ∧ roots.unitName source = .ok unit := by
  simp only [Produced, mem_changedSources_of_isEmpty ha, owns_iff_of_isEmpty ha]

/-- The source of a unit is there, and its place names the unit. -/
theorem named_of_assigned {kind : PlanKind} (hs : Assigned roots a current kind unit source) :
    current.has source = true ∧ roots.unitName source = .ok unit := by
  cases kind with
  | incremental =>
    rcases hs with hl | ⟨-, -, hrec⟩
    · exact ⟨(mem_changedSources_of_isEmpty ha).1 hl.mem.1, (owns_iff_of_isEmpty ha).1 hl.mem.2⟩
    · exact absurd hrec (not_recorded_of_isEmpty ha)
  | full => exact ⟨mem_presentPaths.1 hs.mem.1, (owns_iff_of_isEmpty ha).1 hs.mem.2⟩

/-- Nothing ties two units together. -/
theorem eq_of_tied {kind : PlanKind} {u v : Text}
    (h : EqvGen (Tied (DependsOn a) (Assigned roots a current kind)) u v) : u = v := by
  refine eq_equivalence.eqvGen_iff.1 (EqvGen.mono ?_ u v h)
  rintro u v (⟨huv, -⟩ | ⟨s, hu, hv⟩)
  · rcases huv.cases_head with he | ⟨w, hw, -⟩
    · exact he
    · exact absurd hw (not_dependsOn_of_isEmpty ha)
  · have hname := (named_of_assigned ha hu).2
    rw [(named_of_assigned ha hv).2] at hname
    exact (Except.ok.inj hname).symm

/-- A unit stands for each source that is there, by its place. -/
theorem mem_units_of_isEmpty (hu : loaded.usable? = some a)
    (h : select roots policy loaded current = .ok plan) : unit ∈ plan.units ↔
      ∃ source, current.has source = true ∧ roots.unitName source = .ok unit := by
  cases hk : plan.kind with
  | incremental =>
    rw [mem_units_iff hu h hk, ← produced_iff_of_isEmpty ha]
    constructor
    · rintro ⟨hproduced | ⟨⟨r, hr⟩, -⟩, -⟩
      · exact hproduced
      · exact absurd hr (find?_ne_some_of_isEmpty ha)
    · intro hproduced
      exact (mem_units_iff hu h hk).1 (mem_units_of_produced hu h hk hproduced)
  | full =>
    rw [mem_units_of_full hu h hk]
    simp only [mem_presentPaths, owns_iff_of_isEmpty ha]

end

/-- A unit that is compiled by itself. -/
def Group.single (unit source : Text) : Group where
  units := (∅ : TextMap Text).insert unit source
  sources := TextSet.ofTexts [source]
  needs := ∅

@[simp] theorem Group.mem_units_single {u : Text} :
    u ∈ (Group.single unit source).units ↔ u = unit := by
  rw [single, Std.ExtTreeMap.mem_insert, Std.LawfulEqCmp.compare_eq_iff_eq]
  simp [eq_comm]

@[simp] theorem Group.mem_sources_single {s : Text} :
    s ∈ (Group.single unit source).sources ↔ s = source := by
  rw [single, mem_ofTexts, List.mem_singleton]

theorem Group.eq_single {G : Group}
    (hunits : ∀ u s : Text, G.units[u]? = some s ↔ u = unit ∧ s = source)
    (hsources : ∀ s, s ∈ G.sources ↔ s = source) (hneeds : ∀ d, d ∉ G.needs) :
    G = .single unit source := by
  obtain ⟨units, sources, needs⟩ := G
  rw [Group.single, Group.mk.injEq]
  refine ⟨Std.ExtTreeMap.ext_getElem? fun u => Option.ext fun s => ?_,
    Std.ExtTreeSet.ext_mem fun s => ?_, Std.ExtTreeSet.ext_mem fun d => ?_⟩
  · rw [hunits, Std.ExtTreeMap.getElem?_insert]
    split
    · next he =>
      rw [Std.LawfulEqCmp.compare_eq_iff_eq] at he
      simp [he, eq_comm]
    · next he =>
      rw [Std.LawfulEqCmp.compare_eq_iff_eq] at he
      simp [Ne.symm he]
  · rw [hsources, mem_ofTexts, List.mem_singleton]
  · simp [hneeds d]

/-! ## Plans from it -/

/-- Each unit of the plan is compiled by itself, and no group waits for another one. -/
structure Plan.Separate (plan : Plan) : Prop where
  eq_single : ∀ G ∈ plan.groups, ∃ unit source, G = .single unit source
  exists_single : ∀ unit ∈ plan.units, ∃ source, Group.single unit source ∈ plan.groups

section
variable (hu : loaded.usable? = some a) (ha : a.isEmpty = true)
  (h : select roots policy loaded current = .ok plan)
include hu ha h

/-- A group has one unit, of a source that is there, and waits for no other group. -/
theorem eq_single_of_mem_groups {G : Group} (hG : G ∈ plan.groups) :
    ∃ unit source, unit ∈ plan.units ∧ current.has source = true ∧ G = .single unit source := by
  obtain ⟨i, hi⟩ := List.mem_iff_getElem?.1 hG
  obtain ⟨sources, hgroups, -⟩ := groups_eq_make hu h
  obtain ⟨unit, hunit⟩ := Grouping.exists_mem_units (hgroups ▸ hi)
  obtain ⟨source, hsource⟩ := mem_iff_exists.1 hunit
  have hassigned := (getElem?_group_iff hu h hG hunit).1 hsource
  have honly : ∀ v ∈ G.units, v = unit := fun v hv =>
    eq_of_tied ha ((group_eq_iff_tied hu h hi hv hi hunit).1 rfl)
  refine ⟨unit, source, mem_units_of_mem_group hu h hG hunit, (named_of_assigned ha hassigned).1,
    Group.eq_single (fun u s => ?_) (fun s => ?_) fun d hd => ?_⟩
  · constructor
    · intro hs
      obtain rfl := honly u (mem_iff_exists.2 ⟨s, hs⟩)
      rw [hsource] at hs
      exact ⟨rfl, (Option.some.inj hs).symm⟩
    · rintro ⟨rfl, rfl⟩
      exact hsource
  · rw [mem_group_sources hu h hG]
    constructor
    · rintro ⟨v, hv⟩
      obtain rfl := honly v (mem_iff_exists.2 ⟨s, hv⟩)
      rw [hsource] at hv
      exact (Option.some.inj hv).symm
    · rintro rfl
      exact ⟨unit, hsource⟩
  · obtain ⟨-, H, -, u, -, v, -, hd⟩ := (mem_group_needs_iff hu h hi).1 hd
    exact not_dependsOn_of_isEmpty ha hd

/-- **Without records every unit is compiled by itself.** -/
theorem separate_of_isEmpty : plan.Separate where
  eq_single G hG := by
    obtain ⟨unit, source, -, -, he⟩ := eq_single_of_mem_groups hu ha h hG
    exact ⟨unit, source, he⟩
  exists_single unit hm := by
    obtain ⟨i, ⟨G, hG, hunit⟩, -⟩ := (mem_units_iff_existsUnique hu h).1 hm
    have hG := List.mem_of_getElem? hG
    obtain ⟨other, source, -, -, rfl⟩ := eq_single_of_mem_groups hu ha h hG
    exact ⟨source, Group.mem_units_single.1 hunit ▸ hG⟩

theorem groups_of_no_source (hp : presentPaths current = []) : plan.groups = [] := by
  rw [List.eq_nil_iff_forall_not_mem]
  intro G hG
  obtain ⟨unit, source, -, hs, -⟩ := eq_single_of_mem_groups hu ha h hG
  rw [← mem_presentPaths, hp] at hs
  cases hs

theorem groups_of_source (hp : presentPaths current = [source])
    (hname : roots.unitName source = .ok unit) : plan.groups = [.single unit source] := by
  have hone : ∀ s, current.has s = true ↔ s = source := fun s => by
    rw [← mem_presentPaths, hp, List.mem_singleton]
  have hunit : ∀ u, u ∈ plan.units ↔ u = unit := fun u => by
    rw [mem_units_of_isEmpty ha hu h]
    simp [hone, hname, eq_comm]
  have hall : ∀ G ∈ plan.groups, G = .single unit source := fun G hG => by
    obtain ⟨u, s, hm, hs, rfl⟩ := eq_single_of_mem_groups hu ha h hG
    rw [(hunit u).1 hm, (hone s).1 hs]
  -- the unit is in one group, so no other group equals it
  obtain ⟨i, ⟨G, hG, -⟩, honly⟩ := (mem_units_iff_existsUnique hu h).1 ((hunit unit).2 rfl)
  have hi : i < plan.groups.length := (List.getElem?_eq_some_iff.1 hG).1
  have hj : ∀ j < plan.groups.length, j = i := fun j hj =>
    honly j ⟨_, List.getElem?_eq_getElem hj, by rw [hall _ (List.getElem_mem hj)]; simp⟩
  have hlength : plan.groups.length = 1 := by
    have h0 := hj 0 (by omega)
    have hlast := hj (plan.groups.length - 1) (by omega)
    omega
  rw [List.eq_replicate_of_mem hall, hlength]
  rfl

end

/-! ## Plans without an analysis -/

/-- One group has all units of the plan and all sources that are there. -/
def Plan.Joint (plan : Plan) (current : Snapshots) : Prop :=
  ∃ G : Group, plan.groups = [G] ∧ (∀ unit, unit ∈ G.units ↔ unit ∈ plan.units) ∧
    (∀ source, source ∈ G.sources ↔ current.has source = true) ∧ G.needs = ∅

theorem owns_none_iff : Owns roots none source unit ↔ roots.unitName source = .ok unit := by
  simp [Owns, Recorded]

section
variable (hn : absent.usable? = none) (h : select roots policy absent current = .ok first)
include hn h

theorem groups_of_absent : ∃ sources : TextMap Text,
    (∀ unit source : Text, sources[unit]? = some source ↔
      LastOwner roots none (presentPaths current) unit source) ∧
    (∀ unit, unit ∈ first.units ↔ unit ∈ sources) ∧
    (sources = ∅ ∧ first.groups = [] ∨
      sources ≠ ∅ ∧ first.groups = [⟨sources, TextSet.ofTexts (presentPaths current), ∅⟩]) := by
  rw [select_of_unusable hn] at h
  obtain ⟨-, -, -, claimed, hc, hgroups, hunits⟩ := fullPlan_eq_ok h
  have hsources := getElem?_foldl_claims hc ∅
  generalize (claimed.foldl (fun m c => m.insert c.1 c.2) ∅ : TextMap Text) = sources
    at hgroups hunits hsources
  refine ⟨sources, fun unit source => ?_, fun unit => ?_, ?_⟩
  · rw [hsources]
    simp
  · rw [hunits, mem_ofTexts, Std.ExtTreeMap.mem_keys]
  · rw [hgroups, fullGroups]
    split
    · next he => exact Or.inl ⟨Std.ExtTreeMap.isEmpty_iff.1 he, rfl⟩
    · next he => exact Or.inr ⟨mt Std.ExtTreeMap.isEmpty_iff.2 he, rfl⟩

/-- A unit stands for each source that is there, by its place. -/
theorem mem_units_of_absent : unit ∈ first.units ↔
    ∃ source, current.has source = true ∧ roots.unitName source = .ok unit := by
  obtain ⟨sources, hsources, hunits, -⟩ := groups_of_absent hn h
  rw [hunits, mem_iff_exists]
  simp only [hsources]
  constructor
  · rintro ⟨source, hl⟩
    exact ⟨source, mem_presentPaths.1 hl.mem.1, owns_none_iff.1 hl.mem.2⟩
  · rintro ⟨source, hs, hname⟩
    exact exists_lastOwner ⟨source, mem_presentPaths.2 hs, owns_none_iff.2 hname⟩

/-- **Without an analysis all units are compiled together.** -/
theorem joint_of_absent (hm : unit ∈ first.units) : first.Joint current := by
  obtain ⟨sources, -, hunits, ⟨rfl, -⟩ | ⟨-, hgroups⟩⟩ := groups_of_absent hn h
  · exact absurd ((hunits unit).1 hm) Std.ExtTreeMap.not_mem_empty
  · refine ⟨_, hgroups, fun unit => (hunits unit).symm, fun source => ?_, rfl⟩
    rw [mem_ofTexts, mem_presentPaths]

theorem groups_of_no_source_of_absent (hp : presentPaths current = []) : first.groups = [] := by
  obtain ⟨sources, hsources, -, ⟨-, hgroups⟩ | ⟨hne, -⟩⟩ := groups_of_absent hn h
  · exact hgroups
  · refine absurd (Std.ExtTreeMap.ext_getElem? fun unit => Option.ext fun source => ?_) hne
    rw [hsources, hp]
    simp [LastOwner]

theorem groups_of_source_of_absent (hp : presentPaths current = [source])
    (hname : roots.unitName source = .ok unit) : first.groups = [.single unit source] := by
  obtain ⟨sources, hsources, -, hgroups⟩ := groups_of_absent hn h
  have hiff : ∀ u s : Text, sources[u]? = some s ↔ u = unit ∧ s = source := fun u s => by
    rw [hsources, hp, lastOwner_singleton, owns_none_iff, hname, Except.ok.injEq]
    exact and_comm.trans (and_congr_left' eq_comm)
  have hpath : ∀ s, s ∈ TextSet.ofTexts [source] ↔ s = source := fun s =>
    mem_ofTexts.trans List.mem_singleton
  rcases hgroups with ⟨rfl, -⟩ | ⟨-, hgroups⟩
  · simpa using (hiff unit source).2 ⟨rfl, rfl⟩
  · rw [hgroups, hp]
    exact congrArg (fun G => [G]) (Group.eq_single hiff hpath (by simp))

end

/-! ## The two plans -/

/-- Selecting succeeds when nothing is recorded and every source that is there has a unit. -/
theorem exists_select (ha : ∀ a, loaded.usable? = some a → a.isEmpty = true)
    (hnames : ∀ source, current.has source = true → ∃ unit, roots.unitName source = .ok unit) :
    ∃ plan, select roots policy loaded current = .ok plan := by
  cases h : select roots policy loaded current with
  | ok plan => exact ⟨plan, rfl⟩
  | error e =>
    obtain ⟨source, -, he, hs | ⟨a, hu, hs⟩⟩ := exists_of_select_eq_error h
    · obtain ⟨unit, hname⟩ := hnames source hs
      rw [he] at hname
      cases hname
    · exact absurd hs (not_has_of_isEmpty (ha a hu))

/-- **The two plans agree** exactly when there is at most one source. -/
theorem groups_eq_iff_of_isEmpty (hu : loaded.usable? = some a) (ha : a.isEmpty = true)
    (hn : absent.usable? = none) (h : select roots policy loaded current = .ok plan)
    (hfirst : select roots policy absent current = .ok first)
    (hnames : ∀ source, current.has source = true → ∃ unit, roots.unitName source = .ok unit) :
    plan.groups = first.groups ↔ (presentPaths current).length ≤ 1 := by
  have hnamed : ∀ {path}, path ∈ presentPaths current →
      ∃ unit, roots.unitName path = .ok unit := fun hp => hnames _ (mem_presentPaths.1 hp)
  constructor
  · intro he
    rcases hpaths : presentPaths current with - | ⟨path, paths⟩
    · simp
    rw [← hpaths]
    have hpath : path ∈ presentPaths current := by rw [hpaths]; exact List.mem_cons_self
    obtain ⟨unit, hname⟩ := hnamed hpath
    obtain ⟨G, hG, -, hsources, -⟩ := joint_of_absent hn hfirst
      ((mem_units_of_absent hn hfirst).2 ⟨path, mem_presentPaths.1 hpath, hname⟩)
    have hmem : G ∈ plan.groups := by rw [he, hG]; exact List.mem_singleton_self G
    -- the group of the first plan holds every source, a group of the other one holds one
    obtain ⟨_, source, -, -, rfl⟩ := eq_single_of_mem_groups hu ha h hmem
    have hall : ∀ s ∈ presentPaths current, s = source := fun s hs =>
      Group.mem_sources_single.1 ((hsources s).2 (mem_presentPaths.1 hs))
    have hnodup : (presentPaths current).Nodup := Std.ExtTreeMap.nodup_keys
    rwa [List.eq_replicate_of_mem hall, List.nodup_replicate] at hnodup
  · intro hle
    rcases hpaths : presentPaths current with - | ⟨path, - | ⟨other, paths⟩⟩
    · rw [groups_of_no_source hu ha h hpaths, groups_of_no_source_of_absent hn hfirst hpaths]
    · obtain ⟨unit, hname⟩ := hnamed (by rw [hpaths]; exact List.mem_cons_self)
      rw [groups_of_source hu ha h hpaths hname,
        groups_of_source_of_absent hn hfirst hpaths hname]
    · simp [hpaths] at hle

/-- **When nothing is recorded** every unit is compiled by itself, and without an analysis all
    are compiled together.  The groups are the same exactly if there is at most one source. -/
theorem groups_unrecorded (hu : loaded.usable? = some a) (ha : a.isEmpty = true)
    (hn : absent.usable? = none)
    (hnames : ∀ source, current.has source = true → ∃ unit, roots.unitName source = .ok unit) :
    ∃ plan first, select roots policy loaded current = .ok plan ∧
      select roots policy absent current = .ok first ∧
      (∀ unit, unit ∈ plan.units ↔ unit ∈ first.units) ∧ plan.Separate ∧
      ((∃ source, current.has source = true) → first.Joint current) ∧
      (plan.groups = first.groups ↔ (presentPaths current).length ≤ 1) := by
  obtain ⟨plan, h⟩ : ∃ plan, select roots policy loaded current = .ok plan :=
    exists_select (fun b hb => Option.some.inj (hu.symm.trans hb) ▸ ha) hnames
  obtain ⟨first, hfirst⟩ : ∃ first, select roots policy absent current = .ok first :=
    exists_select (fun b hb => by rw [hn] at hb; cases hb) hnames
  refine ⟨plan, first, h, hfirst, fun unit => ?_, separate_of_isEmpty hu ha h, ?_,
    groups_eq_iff_of_isEmpty hu ha hn h hfirst hnames⟩
  · rw [mem_units_of_isEmpty ha hu h, mem_units_of_absent hn hfirst]
  · rintro ⟨source, hs⟩
    obtain ⟨unit, hname⟩ := hnames source hs
    exact joint_of_absent hn hfirst ((mem_units_of_absent hn hfirst).2 ⟨source, hs, hname⟩)

namespace Session

/-- Both sources of the sample have a unit. -/
theorem exists_unitName_both (source : Text) (hs : both.has source = true) :
    ∃ unit, sample.roots.unitName source = .ok unit := by
  have hall : ∀ source ∈ presentPaths both,
      (sample.roots.unitName source).toOption.isSome = true := by decide +kernel
  obtain ⟨unit, hname⟩ := Option.isSome_iff_exists.1 (hall source (mem_presentPaths.2 hs))
  exact ⟨unit, toOption_eq_some.1 hname⟩

/-- The first build comes to nothing, and the next plan compiles its two units apart. -/
theorem groups_unrecorded_both : ∃ first a plan,
    sample.step (prior none) both "f" compileNone = .ok (first, a) ∧ a.isEmpty = true ∧
      (∀ source, both.has source = true → ∃ unit, sample.roots.unitName source = .ok unit) ∧
      select sample.roots sample.policy (.ofAnalysis a) both = .ok plan ∧
      plan.Separate ∧ first.Joint both ∧
      (plan.groups = first.groups ↔ (presentPaths both).length ≤ 1) := by
  obtain ⟨⟨first, a⟩, hstep⟩ : ∃ x, sample.step (prior none) both "f" compileNone = .ok x := by
    have hsome : (sample.step (prior none) both "f" compileNone).toOption.isSome = true := by
      decide +kernel
    obtain ⟨x, hx⟩ := Option.isSome_iff_exists.1 hsome
    exact ⟨x, toOption_eq_some.1 hx⟩
  obtain ⟨hselect, hmerge⟩ := step_eq_ok hstep
  have ha : a.isEmpty = true := by
    rw [hmerge]
    refine isEmpty_merge_of_failed ?_
    rintro i - o ⟨_, _, he, -⟩
    have hm : o ∈ compileNone first := by rw [he]; simp
    obtain rfl := List.mem_singleton.1 hm
    rfl
  have hu : (LoadOutcome.ofAnalysis a).usable? = some a := rfl
  obtain ⟨plan, other, h, hother, -, hseparate, hjoint, hiff⟩ :=
    @groups_unrecorded sample.roots sample.policy _ (prior none) _ _ hu ha usable?_prior
      exists_unitName_both
  obtain rfl := Except.ok.inj (hselect.symm.trans hother)
  exact ⟨first, a, plan, hstep, ha, exists_unitName_both, h, hseparate,
    hjoint ⟨"/p/A.l", by decide +kernel⟩, hiff⟩

/-- **A build after one that came to nothing** need not have its groups. -/
theorem retry_differs : ∃ first a plan,
    sample.step (prior none) both "f" compileNone = .ok (first, a) ∧ a.isEmpty = true ∧
      select sample.roots sample.policy (.ofAnalysis a) both = .ok plan ∧
      first.groups.length = 1 ∧ plan.groups.length = 2 ∧ plan.groups ≠ first.groups := by
  have hc : (sample.step (prior none) both "f" compileNone).toOption.map (fun x =>
      (x.2.isEmpty, x.1.groups.length,
        (select sample.roots sample.policy (.ofAnalysis x.2) both).toOption.map
          (·.groups.length))) = some (true, 1, some 2) := by decide +kernel
  obtain ⟨⟨first, a⟩, hx, he⟩ := Option.map_eq_some_iff.1 hc
  simp only [Prod.mk.injEq] at he
  obtain ⟨ha, hfirst, hplan⟩ := he
  obtain ⟨plan, h, hlength⟩ := exists_plan hplan
  refine ⟨first, a, plan, toOption_eq_some.1 hx, ha, h, hfirst, hlength, fun heq => ?_⟩
  rw [heq, hfirst] at hlength
  cases hlength

end Session

end Rebuild
