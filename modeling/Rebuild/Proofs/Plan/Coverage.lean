/-
  Which sources are compiled.

  A plan goes from sources to the names of their units, and from the names back to sources.
  On the way back a name has one source only, so a source can get lost.

  * `candidates` are the sources that a plan takes units from, in order: of two sources with
    a unit in common the later one has it;
  * `exists_group_iff_lastOwner`: a candidate is in a group exactly when it is the last one
    with some unit;
  * `exists_unique_group_iff`: then it is in one group only.  Without a prior analysis all
    sources are in a group, and with one those that have a unit of their own;
  * of two new sources with the same unit the earlier one is compiled in no group
    (`changed_source_in_no_group`).
-/
import Rebuild.Proofs.Plan.Groups

namespace Rebuild

variable {roots : Roots} {policy : Policy} {loaded : LoadOutcome} {current : Snapshots}
  {a : Analysis} {plan : Plan} {kind : PlanKind} {source unit : Text}

/-- Group `i` compiles the source. -/
def Plan.Compiles (plan : Plan) (i : Nat) (source : Text) : Prop :=
  ∃ G, plan.groups[i]? = some G ∧ source ∈ G.sources

/-- The sources that a plan takes units from. -/
def candidates (a : Analysis) (current : Snapshots) : PlanKind → List Text
  | .incremental => changedSources a current
  | .full => presentPaths current

theorem mem_candidates_of_changed (kind : PlanKind) (hs : source ∈ changedSources a current) :
    source ∈ candidates a current kind := by
  cases kind with
  | incremental => exact hs
  | full => exact mem_presentPaths.2 (has_of_mem_changedSources hs)

theorem has_of_mem_candidates (hs : source ∈ candidates a current kind) :
    current.has source = true := by
  cases kind with
  | incremental => exact has_of_mem_changedSources hs
  | full => exact mem_presentPaths.1 hs

/-! ## Units of candidates -/

section
variable (hu : loaded.usable? = some a) (h : select roots policy loaded current = .ok plan)
  (hs : source ∈ candidates a current plan.kind)
include hu h hs

theorem mem_units_of_owns (ho : Owns roots (some a) source unit) : unit ∈ plan.units := by
  cases hk : plan.kind with
  | incremental =>
    rw [hk] at hs
    exact mem_units_of_produced hu h hk ⟨source, hs, ho⟩
  | full =>
    rw [hk] at hs
    exact (mem_units_of_full hu h hk).2 ⟨source, hs, ho⟩

/-- A candidate without a record has a name, or there would be no plan. -/
theorem exists_owns : ∃ unit, Owns roots (some a) source unit := by
  cases hk : plan.kind with
  | incremental =>
    rw [hk] at hs
    obtain ⟨_, _, -, hc, -⟩ := judge_incremental (judge_of_incremental hu h hk)
    exact (claims_eq hc).2 source hs
  | full =>
    rw [hk] at hs
    obtain ⟨_, hf⟩ := fullPlan_of_full hu h hk
    obtain ⟨-, -, -, _, hc, -⟩ := fullPlan_eq_ok hf
    exact (claims_eq hc).2 source hs

end

/-! ## Groups of candidates -/

theorem assigned_iff_lastOwner (hs : source ∈ candidates a current kind) :
    Assigned roots a current kind unit source ↔
      LastOwner roots (some a) (candidates a current kind) unit source := by
  cases kind with
  | full => rfl
  | incremental =>
    constructor
    · rintro (hl | ⟨hnew, -, hrec⟩)
      · exact hl
      · exact absurd ⟨source, hs, Or.inl hrec⟩ hnew
    · exact Or.inl

/-- **A candidate is compiled** exactly when it is the last one with some unit. -/
theorem exists_group_iff_lastOwner (hu : loaded.usable? = some a)
    (h : select roots policy loaded current = .ok plan)
    (hs : source ∈ candidates a current plan.kind) :
    (∃ G ∈ plan.groups, source ∈ G.sources) ↔
      ∃ unit, LastOwner roots (some a) (candidates a current plan.kind) unit source := by
  constructor
  · rintro ⟨G, hG, hm⟩
    obtain ⟨unit, hunit⟩ := (mem_group_sources hu h hG).1 hm
    obtain ⟨-, ha⟩ := (exists_group_iff hu h).1 ⟨G, hG, hunit⟩
    exact ⟨unit, (assigned_iff_lastOwner hs).1 ha⟩
  · rintro ⟨unit, hl⟩
    have hm : unit ∈ plan.units := mem_units_of_owns hu h hs hl.mem.2
    obtain ⟨G, hG, hunit⟩ := (exists_group_iff hu h).2 ⟨hm, (assigned_iff_lastOwner hs).2 hl⟩
    exact ⟨G, hG, (mem_group_sources hu h hG).2 ⟨unit, hunit⟩⟩

theorem exists_group_of_no_prior (hu : loaded.usable? = none)
    (h : select roots policy loaded current = .ok plan) (hp : current.has source = true) :
    ∃ G ∈ plan.groups, source ∈ G.sources := by
  rcases select_eq_ok h with ⟨-, hf⟩ | ⟨b, hb, -⟩
  · obtain ⟨-, -, -, claimed, hc, hgroups, -⟩ := fullPlan_eq_ok hf
    have hm : source ∈ presentPaths current := mem_presentPaths.2 hp
    obtain ⟨unit, ho⟩ := (claims_eq hc).2 source hm
    have hunit : unit ∈ (claimed.foldl (fun m c => m.insert c.1 c.2) ∅ : TextMap Text) :=
      (mem_foldl_insert claimed ∅ unit).2 (Or.inl ⟨_, (mem_claims hc).2 ⟨hm, ho⟩, rfl⟩)
    have hne : (claimed.foldl (fun m c => m.insert c.1 c.2) ∅ : TextMap Text).isEmpty = false := by
      rw [← Bool.not_eq_true, Std.ExtTreeMap.isEmpty_iff]
      intro he
      rw [he] at hunit
      exact Std.ExtTreeMap.not_mem_empty hunit
    rw [hgroups, fullGroups, hne]
    exact ⟨_, List.mem_singleton_self _, mem_ofTexts.2 hm⟩
  · rw [hu] at hb
    cases hb

/-- No other source that is there has the unit. -/
def SoleOwner (roots : Roots) (prior : Option Analysis) (current : Snapshots)
    (source unit : Text) : Prop :=
  Owns roots prior source unit ∧
    ∀ other, current.has other = true → Owns roots prior other unit → other = source

/-- **A candidate with a unit of its own is compiled.** -/
theorem exists_group_of_soleOwner (h : select roots policy loaded current = .ok plan)
    (hp : current.has source = true)
    (hs : ∀ a, loaded.usable? = some a → source ∈ candidates a current plan.kind)
    (ho : SoleOwner roots loaded.usable? current source unit) :
    ∃ G ∈ plan.groups, source ∈ G.sources := by
  cases hu : loaded.usable? with
  | none => exact exists_group_of_no_prior hu h hp
  | some a =>
    rw [hu] at ho
    have hm := hs a hu
    obtain ⟨other, hl⟩ := exists_lastOwner ⟨source, hm, ho.1⟩
    obtain ⟨hom, hoo⟩ := hl.mem
    have he : other = source := ho.2 other (has_of_mem_candidates hom) hoo
    exact (exists_group_iff_lastOwner hu h hm).2 ⟨unit, he ▸ hl⟩

/-! ## Changed sources -/

theorem plan_changes (h : select roots policy loaded current = .ok plan) :
    plan.changes = Changes.between ((loaded.usable?.map (·.snapshots)).getD ∅) current := by
  rcases select_eq_ok h with ⟨hu, hf⟩ | ⟨a, hu, hj | ⟨reason, -, hf⟩⟩
  · rw [hu]
    exact (fullPlan_eq_ok hf).2.1
  · obtain ⟨_, _, -, -, hp⟩ := judge_incremental hj
    rw [hu, hp]
    exact incrementalPlan_changes _ _ _ _
  · rw [hu]
    exact (fullPlan_eq_ok hf).2.1

theorem mem_changedSources_of_mem_changes (h : select roots policy loaded current = .ok plan)
    (hs : source ∈ plan.changes.modified ∨ source ∈ plan.changes.added) :
    current.has source = true ∧
      ∀ a, loaded.usable? = some a → source ∈ changedSources a current := by
  rw [plan_changes h] at hs
  constructor
  · rcases hs with hs | hs
    · exact Changes.has_of_mem_modified hs
    · exact (Changes.mem_added.1 hs).1
  · intro a hu
    rw [hu] at hs
    rw [changedSources, List.mem_append, Std.ExtTreeSet.mem_toList, Std.ExtTreeSet.mem_toList]
    exact hs

theorem existsUnique_compiles_iff (h : select roots policy loaded current = .ok plan) :
    (∃! i, plan.Compiles i source) ↔ ∃ G ∈ plan.groups, source ∈ G.sources := by
  constructor
  · rintro ⟨i, ⟨G, hG, hm⟩, -⟩
    exact ⟨G, List.mem_of_getElem? hG, hm⟩
  · rintro ⟨G, hG, hm⟩
    obtain ⟨i, hi⟩ := List.mem_iff_getElem?.1 hG
    refine ⟨i, ⟨G, hi, hm⟩, ?_⟩
    rintro j ⟨H, hH, hj⟩
    exact eq_of_mem_group_sources h hH hi hj hm

/-- **A changed source is compiled in exactly one group** when there is no prior analysis, or
    when it is the last of the candidates with some unit, and only then.  So it is when one of
    its units is a unit of no other source. -/
theorem exists_unique_group_iff (h : select roots policy loaded current = .ok plan)
    (hs : source ∈ plan.changes.modified ∨ source ∈ plan.changes.added) :
    (∀ i j, plan.Compiles i source → plan.Compiles j source → i = j) ∧
    ((∃! i, plan.Compiles i source) ↔ ∀ a, loaded.usable? = some a →
      ∃ unit, LastOwner roots (some a) (candidates a current plan.kind) unit source) ∧
    ((∃ unit, SoleOwner roots loaded.usable? current source unit) →
      ∃! i, plan.Compiles i source) := by
  obtain ⟨hp, hchanged⟩ := mem_changedSources_of_mem_changes h hs
  have hcand : ∀ a, loaded.usable? = some a → source ∈ candidates a current plan.kind :=
    fun a hu => mem_candidates_of_changed plan.kind (hchanged a hu)
  refine ⟨?_, ?_, ?_⟩
  · rintro i j ⟨G, hG, hi⟩ ⟨H, hH, hj⟩
    exact eq_of_mem_group_sources h hG hH hi hj
  · rw [existsUnique_compiles_iff h]
    constructor
    · intro hG a hu
      exact (exists_group_iff_lastOwner hu h (hcand a hu)).1 hG
    · intro hl
      cases hu : loaded.usable? with
      | none => exact exists_group_of_no_prior hu h hp
      | some a => exact (exists_group_iff_lastOwner hu h (hcand a hu)).2 (hl a hu)
  · rintro ⟨unit, ho⟩
    exact (existsUnique_compiles_iff h).2 (exists_group_of_soleOwner h hp hcand ho)

theorem exists_unique_group_iff_fiveUnits : ∃ plan,
    select ⟨["/p"], "l"⟩ {} (.ofAnalysis fiveUnits) fiveUnitsEdited = .ok plan ∧
      ("/p/A.l" : Text) ∈ plan.changes.modified ∧ ∃! i, plan.Compiles i "/p/A.l" := by
  have hc : (select ⟨["/p"], "l"⟩ {} (.ofAnalysis fiveUnits) fiveUnitsEdited).toOption.map
      (·.changes.modified.toList) = some [("/p/A.l" : Text)] := by decide +kernel
  obtain ⟨plan, h, hm⟩ := exists_plan hc
  have hs : ("/p/A.l" : Text) ∈ plan.changes.modified :=
    Std.ExtTreeSet.mem_toList.1 (by rw [hm]; simp)
  have hown : ("A" : Text) ∈ ownUnits ⟨["/p"], "l"⟩ (some fiveUnits) "/p/A.l" := by decide +kernel
  have hsole : ∀ other ∈ presentPaths fiveUnitsEdited,
      ("A" : Text) ∈ ownUnits ⟨["/p"], "l"⟩ (some fiveUnits) other → other = "/p/A.l" := by
    decide +kernel
  refine ⟨plan, h, hs, (exists_unique_group_iff h (Or.inl hs)).2.2 ⟨"A", mem_ownUnits.1 hown, ?_⟩⟩
  exact fun other hp ho => hsole other (mem_presentPaths.2 hp) (mem_ownUnits.2 ho)

/-- Two files that stand for the unit `A.B`. -/
def twoSpellings : Snapshots :=
  ["/p/A.B.l", "/p/A/B.l"].foldl (fun s path => s.insert path { kind := .file, modified := 1 }) ∅

/-- **A changed source can be compiled in no group**: both files are new, and the unit that
    they stand for has the later one as its source. -/
theorem changed_source_in_no_group : ∃ plan,
    select ⟨["/p"], "l"⟩ { fraction := Binary64.round false 1 1 } (.ofAnalysis (.empty "f"))
        twoSpellings = .ok plan ∧
      plan.kind = .incremental ∧ ("/p/A.B.l" : Text) ∈ plan.changes.added ∧
      ∀ i, ¬ plan.Compiles i "/p/A.B.l" := by
  have hc : (select ⟨["/p"], "l"⟩ { fraction := Binary64.round false 1 1 }
      (.ofAnalysis (.empty "f")) twoSpellings).toOption.map (fun plan =>
        (plan.kind, plan.changes.added.toList, plan.groups.map (·.sources.toList))) =
      some (PlanKind.incremental, [("/p/A.B.l" : Text), "/p/A/B.l"], [[("/p/A/B.l" : Text)]]) := by
    decide +kernel
  obtain ⟨plan, h, he⟩ := exists_plan hc
  simp only [Prod.mk.injEq] at he
  obtain ⟨hk, hadded, hgroups⟩ := he
  refine ⟨plan, h, hk, ?_, ?_⟩
  · rw [← Std.ExtTreeSet.mem_toList, hadded]
    exact List.mem_cons_self
  · rintro i ⟨G, hG, hm⟩
    have hmem : G.sources.toList ∈ plan.groups.map (·.sources.toList) :=
      List.mem_map_of_mem (List.mem_of_getElem? hG)
    rw [hgroups, List.mem_singleton] at hmem
    rw [← Std.ExtTreeSet.mem_toList, hmem] at hm
    revert hm
    decide

end Rebuild
