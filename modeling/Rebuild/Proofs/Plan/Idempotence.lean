/-
  A build after a build that succeeded has nothing to do.

  * `exists_group_of_has`: every source that has to be compiled is one of a group;
  * `unchanged_of_merge`: when all groups were compiled, nothing differs from what the
    merged analysis records;
  * `select_unchanged`: when nothing differs, the plan is incremental and empty.
-/
import Rebuild.Proofs.Binary64
import Rebuild.Proofs.Plan.Coverage
import Rebuild.Proofs.Plan.Merge

namespace Rebuild

/-- No policy gives up on nothing. -/
theorem Policy.exceeded_zero {p : Policy} (h : Binary64.zero.le p.fraction = true) (total : Nat) :
    p.exceeded 0 total = false := by
  rw [exceeded, Bool.and_eq_false_iff]
  exact Or.inr (Binary64.mul_ofNat_lt_zero h total)

variable {roots : Roots} {policy : Policy} {loaded : LoadOutcome} {current : Snapshots}
  {a : Analysis} {plan : Plan}

/-! ## Nothing differs -/

theorem not_reached_of_unchanged (hr : removedSources a current = [])
    (hc : changedSources a current = []) (unit : Text) : ¬ Reached roots a current unit := by
  intro h
  induction h with
  | seed hs => simp [hr, hc] at hs
  | dependent _ _ _ _ ih => exact ih
  | spanning _ _ _ _ _ ih => exact ih
  | sibling _ _ _ _ ih => exact ih

theorem make_empty {g : Graph} (hg : g.WellFormed) (sources : TextMap Text) :
    Grouping.make g ∅ sources = [] := by
  rw [List.eq_nil_iff_forall_not_mem]
  intro G hG
  obtain ⟨i, hi⟩ := List.mem_iff_getElem?.1 hG
  obtain ⟨u, hu⟩ := Grouping.exists_mem_units hi
  have := ((Grouping.exists_isAt_members hg).1 ⟨i, (Grouping.mem_units hi).1 hu⟩).1
  simp at this

/-- **When nothing differs there is nothing to do.** -/
theorem select_unchanged (hf : Binary64.zero.le policy.fraction = true)
    (hr : removedSources a current = []) (hc : changedSources a current = []) : ∃ next,
      select roots policy (.ofAnalysis a) current = .ok next ∧ next.kind = .incremental ∧
        next.groups = [] ∧ next.delete = ∅ ∧ next.purged = ∅ := by
  have h0 : claims roots (some a) [] = .ok [] := rfl
  have hi : (Impact.ofClaims a [] []).Faithful roots a current :=
    Impact.ofClaims_faithful (by rw [hr, h0]) (by rw [hc, h0])
  have hseeds : (Impact.ofClaims a [] []).seeds = ∅ := by
    apply Std.ExtTreeSet.ext_mem
    intro unit
    simp [hi.mem_seeds, hr, hc]
  have hselected : (Impact.ofClaims a [] []).selected ((Impact.ofClaims a [] []).graph a) a = ∅ := by
    apply Std.ExtTreeSet.ext_mem
    intro unit
    simp [Impact.mem_selected hi, not_reached_of_unchanged hr hc]
  have hpurged : (Impact.ofClaims a [] []).purged = ∅ := by
    apply Std.ExtTreeSet.ext_mem
    intro unit
    simp [hi.mem_purged, Purged, hr]
  have hspan : (Impact.ofClaims a [] []).spanning? a = none := by
    rw [Impact.spanning?, hseeds]
    rfl
  have hjudge : judge roots policy a current = .ok (.incremental (incrementalPlan a
      (Impact.ofClaims a [] []) (Changes.between a.snapshots current) current ∅ [])) := by
    have hr' : (Changes.between a.snapshots current).removed.toList = [] := hr
    have hc' : (Changes.between a.snapshots current).modified.toList ++
        (Changes.between a.snapshots current).added.toList = [] := hc
    have hlimit := Policy.exceeded_zero hf (Impact.ofClaims a [] []).liveUnits.length
    unfold judge
    dsimp only
    rw [hr', hc', h0]
    simp only [bind, Except.bind, hspan, hselected, Std.ExtTreeSet.size_empty, hlimit,
      make_empty Impact.graph_wellFormed]
    have hover : policy.oversized? [] = none := by
      unfold Policy.oversized?
      split <;> rfl
    rw [if_neg (by simp), hover]
    rfl
  refine ⟨_, select_of_judge rfl hjudge, incrementalPlan_kind _ _ _ _,
    incrementalPlan_groups _ _ _ _, ?_, ?_⟩
  · rw [incrementalPlan_delete, hpurged]
    rfl
  · rw [incrementalPlan_purged, hpurged]
    rfl

/-! ## After a build that succeeded -/

/-- No two sources that are there have a unit in common. -/
def DistinctUnits (roots : Roots) (prior : Option Analysis) (current : Snapshots) : Prop :=
  ∀ p q unit, current.has p = true → current.has q = true →
    Owns roots prior p unit → Owns roots prior q unit → p = q

theorem distinctUnits_iff {prior : Option Analysis} : DistinctUnits roots prior current ↔
    ∀ p ∈ presentPaths current, ∀ q ∈ presentPaths current, ∀ unit ∈ ownUnits roots prior p,
      unit ∈ ownUnits roots prior q → p = q := by
  simp only [mem_presentPaths, mem_ownUnits]
  exact ⟨fun h p hp q hq unit hu hv => h p q unit hp hq hu hv,
    fun h p q unit hp hq hu hv => h p hp q hq unit hu hv⟩

/-- With distinct units every unit of a source is its own. -/
theorem DistinctUnits.soleOwner {prior : Option Analysis} (hd : DistinctUnits roots prior current)
    {source unit : Text} (hp : current.has source = true) (ho : Owns roots prior source unit) :
    SoleOwner roots prior current source unit :=
  ⟨ho, fun other hother hunit => hd other source unit hother hp hunit ho⟩

/-- **Every source that has to be compiled is one of a group.** -/
theorem exists_group_of_has (h : select roots policy loaded current = .ok plan)
    (hd : DistinctUnits roots loaded.usable? current) {source : Text}
    (hp : current.has source = true) (hc : ∀ a, loaded.usable? = some a →
      plan.kind = .incremental → source ∈ changedSources a current) :
    ∃ G ∈ plan.groups, source ∈ G.sources := by
  cases hu : loaded.usable? with
  | none => exact exists_group_of_no_prior hu h hp
  | some a =>
    have hcand : source ∈ candidates a current plan.kind := by
      cases hk : plan.kind with
      | incremental => exact hc a hu hk
      | full => exact mem_presentPaths.2 hp
    obtain ⟨unit, ho⟩ := exists_owns hu h hcand
    rw [← hu] at ho
    refine exists_group_of_soleOwner h hp (fun b hb => ?_) (hd.soleOwner hp ho)
    rw [hu] at hb
    cases hb
    exact hcand

section
variable {outcomes : List Outcome} (h : select roots policy loaded current = .ok plan)
  (hall : Merge.AllSucceed plan outcomes) (fingerprint : Text)
include h hall

/-- A source that is there is recorded as it is. -/
theorem same_of_merge (hd : DistinctUnits roots loaded.usable? current) {path : Text}
    {now : Snapshot} (hn : current[path]? = some now) (hp : now.present = true) :
    ∃ before, (merge loaded.usable? plan outcomes fingerprint).snapshots[path]? = some before ∧
      before.present = true ∧ before.same now = true := by
  obtain ⟨h1, h2⟩ := Merge.getElem?_merge hall loaded.usable? fingerprint path
  have hhas : current.has path = true := Snapshots.has_iff.2 ⟨now, hn, hp⟩
  by_cases hG : ∃ G ∈ plan.groups, path ∈ G.sources
  · refine ⟨now, ?_, hp, by simp [Snapshot.same]⟩
    rw [h1 hG, plan_snapshots h, hn]
    simp [Option.filter, hp]
  · -- the source is in no group, so it was recorded before, and has not changed
    have hold : ∃ a, loaded.usable? = some a ∧ plan.kind = .incremental ∧
        path ∉ changedSources a current := by
      by_contra hno
      refine hG (exists_group_of_has h hd hhas fun a hu hk => ?_)
      by_contra hc
      exact hno ⟨a, hu, hk, hc⟩
    obtain ⟨a, hu, hk, hc⟩ := hold
    obtain ⟨i, -, hchanges, -⟩ := incremental_eq_ok hu h hk
    simp only [changedSources, List.mem_append, Std.ExtTreeSet.mem_toList, not_or,
      Changes.mem_added, hhas, true_and, not_not] at hc
    obtain ⟨before, hb, hbp⟩ := Snapshots.has_iff.1 hc.2
    refine ⟨before, ?_, hbp, ?_⟩
    · rw [h2 fun G hGm hps => hG ⟨G, hGm, hps⟩, Merge.getElem?_start]
      refine ⟨hk, a, hu, hb, ?_⟩
      rw [hchanges, Changes.mem_removed]
      exact fun hr => hr.2 hhas
    · by_contra hs
      exact hc.1 (Changes.mem_modified.2 ⟨before, now, hb, hn, hbp, hp, by simpa using hs⟩)

/-- What is recorded to be there is there. -/
theorem has_of_merge {path : Text}
    (hb : (merge loaded.usable? plan outcomes fingerprint).snapshots.has path = true) :
    current.has path = true := by
  obtain ⟨h1, h2⟩ := Merge.getElem?_merge hall loaded.usable? fingerprint path
  obtain ⟨before, hb, hp⟩ := Snapshots.has_iff.1 hb
  by_cases hG : ∃ G ∈ plan.groups, path ∈ G.sources
  · rw [h1 hG, plan_snapshots h, Option.filter_eq_some_iff] at hb
    exact Snapshots.has_iff.2 ⟨before, hb.1, hp⟩
  · rw [h2 fun G hGm hps => hG ⟨G, hGm, hps⟩, Merge.getElem?_start] at hb
    obtain ⟨hk, a, hu, ha, hr⟩ := hb
    obtain ⟨i, -, hchanges, -⟩ := incremental_eq_ok hu h hk
    rw [hchanges, Changes.mem_removed] at hr
    by_contra hno
    exact hr ⟨Snapshots.has_iff.2 ⟨before, ha, hp⟩, hno⟩

/-- **After a build that succeeded nothing differs** from what is recorded. -/
theorem unchanged_of_merge (hd : DistinctUnits roots loaded.usable? current) :
    removedSources (merge loaded.usable? plan outcomes fingerprint) current = [] ∧
      changedSources (merge loaded.usable? plan outcomes fingerprint) current = [] := by
  constructor
  · rw [List.eq_nil_iff_forall_not_mem]
    intro path hm
    obtain ⟨hb, hno⟩ := Changes.mem_removed.1 (Std.ExtTreeSet.mem_toList.1 hm)
    exact hno (has_of_merge h hall fingerprint hb)
  · rw [List.eq_nil_iff_forall_not_mem]
    intro path hm
    rcases List.mem_append.1 hm with hm | hm
    · obtain ⟨before, now, hb, hn, -, hp, hs⟩ :=
        Changes.mem_modified.1 (Std.ExtTreeSet.mem_toList.1 hm)
      obtain ⟨before', hb', -, hs'⟩ := same_of_merge h hall fingerprint hd hn hp
      rw [hb] at hb'
      cases hb'
      rw [hs] at hs'
      cases hs'
    · obtain ⟨hc, hno⟩ := Changes.mem_added.1 (Std.ExtTreeSet.mem_toList.1 hm)
      obtain ⟨now, hn, hp⟩ := Snapshots.has_iff.1 hc
      obtain ⟨before, hb, hbp, -⟩ := same_of_merge h hall fingerprint hd hn hp
      exact hno (Snapshots.has_iff.2 ⟨before, hb, hbp⟩)

end

/-- **A build after one that succeeded has nothing to do**: nothing to compile, to delete
    or to forget. -/
theorem select_merge_empty {outcomes : List Outcome}
    (hf : Binary64.zero.le policy.fraction = true)
    (hd : DistinctUnits roots loaded.usable? current)
    (h : select roots policy loaded current = .ok plan)
    (hall : Merge.AllSucceed plan outcomes) (fingerprint : Text) : ∃ next,
      select roots policy (.ofAnalysis (merge loaded.usable? plan outcomes fingerprint)) current =
          .ok next ∧
        next.kind = .incremental ∧ next.groups = [] ∧ next.delete = ∅ ∧ next.purged = ∅ := by
  obtain ⟨hr, hc⟩ := unchanged_of_merge h hall fingerprint hd
  exact select_unchanged hf hr hc

/-- Three groups were compiled, and reported no unit. -/
def threeSuccesses : List Outcome := (List.range 3).map fun i => ⟨i, true, [], []⟩

theorem select_merge_empty_fiveUnits : ∃ plan next,
    select ⟨["/p"], "l"⟩ {} (.ofAnalysis fiveUnits) fiveUnitsEdited = .ok plan ∧
      Merge.AllSucceed plan threeSuccesses ∧
      select ⟨["/p"], "l"⟩ {} (.ofAnalysis (merge (some fiveUnits) plan threeSuccesses "f"))
          fiveUnitsEdited = .ok next ∧
        next.kind = .incremental ∧ next.groups = [] ∧ next.delete = ∅ ∧ next.purged = ∅ := by
  have hkind : (select ⟨["/p"], "l"⟩ {} (.ofAnalysis fiveUnits) fiveUnitsEdited).toOption.map
      (·.kind) = some .incremental := by decide +kernel
  obtain ⟨plan, h, -⟩ := exists_plan hkind
  have hlength : (select ⟨["/p"], "l"⟩ {} (.ofAnalysis fiveUnits) fiveUnitsEdited).toOption.map
      (·.groups.length) = some 3 := by decide +kernel
  rw [h] at hlength
  have hlength : plan.groups.length = 3 := Option.some.inj hlength
  have hall : Merge.AllSucceed plan threeSuccesses := fun i hi => by
    have hany : ∀ i < 3, (Merge.byGroup threeSuccesses)[i]?.any (·.succeeded) = true := by
      decide +kernel
    exact (Option.any_eq_true _ _).1 (hany i (hlength ▸ hi))
  have hd : DistinctUnits ⟨["/p"], "l"⟩ (some fiveUnits) fiveUnitsEdited :=
    distinctUnits_iff.2 (by decide +kernel)
  obtain ⟨next, hn⟩ := select_merge_empty (by decide +kernel) hd h hall "f"
  exact ⟨plan, next, h, hall, hn⟩

end Rebuild
