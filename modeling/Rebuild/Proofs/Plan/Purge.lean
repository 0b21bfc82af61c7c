/-
  Which units a plan forgets.

  A source that was removed takes its recorded units along.  Without a record it takes the
  unit that its place names, and this one can be recorded for another source.

  * `mem_purged_present_iff`: a unit whose source is there is forgotten exactly when a
    removed source without a record names it and no changed source has it; a plan to
    compile everything forgets none;
  * a unit is forgotten, and compiled from no source, although its source is there and
    unchanged (`present_unit_purged`).
-/
import Rebuild.Proofs.Plan.Selection

namespace Rebuild

variable {roots : Roots} {policy : Policy} {loaded : LoadOutcome} {current : Snapshots}
  {a : Analysis} {plan : Plan} {unit : Text} {r : UnitRecord}

/-- A removed source without a record names the unit by its place. -/
def NamedByRemoved (roots : Roots) (a : Analysis) (current : Snapshots) (unit : Text) : Prop :=
  ∃ source ∈ removedSources a current,
    (∀ other, ¬ Recorded (some a) source other) ∧ roots.unitName source = .ok unit

theorem purged_present_iff (hr : a.find? unit = some r) (hp : current.has r.source = true) :
    Purged roots a current unit ↔ NamedByRemoved roots a current unit := by
  constructor
  · rintro ⟨⟨source, hs, hrec | ⟨hno, hname⟩⟩, -⟩
    · obtain ⟨q, hq, rfl⟩ := recorded_some.1 hrec
      rw [hr] at hq
      cases hq
      -- the recorded source is the removed one, but it is there
      have hgone := (Changes.mem_removed.1 (Std.ExtTreeSet.mem_toList.1 hs)).2
      exact absurd hp hgone
    · exact ⟨source, hs, hno, hname⟩
  · rintro ⟨source, hs, hno, hname⟩
    exact ⟨⟨source, hs, Or.inr ⟨hno, hname⟩⟩, r, hr⟩

theorem notMem_purged_of_full (hu : loaded.usable? = some a)
    (h : select roots policy loaded current = .ok plan) (hk : plan.kind = .full)
    (hr : a.find? unit = some r) (hp : current.has r.source = true) : unit ∉ plan.purged := by
  rw [mem_purged_of_full hu h hk]
  rintro ⟨-, hno⟩
  have hrec : Recorded (some a) r.source unit := recorded_some.2 ⟨r, hr, rfl⟩
  exact hno ((mem_units_of_full hu h hk).2 ⟨r.source, mem_presentPaths.2 hp, Or.inl hrec⟩)

/-- **A unit whose source is there** is forgotten exactly when the plan is incremental, a
    removed source without a record names the unit, and no changed source has it.  So none is
    forgotten when every removed source has a record. -/
theorem mem_purged_present_iff (hu : loaded.usable? = some a)
    (h : select roots policy loaded current = .ok plan) :
    (∀ unit r, a.find? unit = some r → current.has r.source = true →
      (unit ∈ plan.purged ↔ plan.kind = .incremental ∧ NamedByRemoved roots a current unit ∧
        ∀ source ∈ changedSources a current, ¬ Owns roots (some a) source unit)) ∧
    ((∀ source ∈ removedSources a current, ∃ unit, Recorded (some a) source unit) →
      ∀ unit ∈ plan.purged, ∀ r, a.find? unit = some r → current.has r.source ≠ true) := by
  have hiff : ∀ unit r, a.find? unit = some r → current.has r.source = true →
      (unit ∈ plan.purged ↔ plan.kind = .incremental ∧ NamedByRemoved roots a current unit ∧
        ∀ source ∈ changedSources a current, ¬ Owns roots (some a) source unit) := by
    intro unit r hr hp
    cases hk : plan.kind with
    | incremental =>
      rw [mem_purged_iff hu h hk, purged_present_iff hr hp]
      simp [Produced]
    | full =>
      have hno := notMem_purged_of_full hu h hk hr hp
      simp [hno]
  refine ⟨hiff, ?_⟩
  intro hrec unit hm r hr hp
  obtain ⟨-, ⟨source, hs, hno, -⟩, -⟩ := (hiff unit r hr hp).1 hm
  obtain ⟨other, ho⟩ := hrec source hs
  exact hno other ho

/-- Two files stood for the unit `A`, and it was recorded for the second one. -/
def shadowed : Analysis :=
  let a := (Analysis.empty "f").putUnit { name := "A", source := "/q/A.l" }
  ["/p/A.l", "/q/A.l"].foldl (fun a path => a.recordSnapshot path { kind := .file, modified := 1 })
    a

/-- The first file was removed. -/
def shadowedRemoved : Snapshots := shadowed.snapshots.erase "/p/A.l"

theorem shadowed_plan : ∃ plan r,
    select ⟨["/p", "/q"], "l"⟩ {} (.ofAnalysis shadowed) shadowedRemoved = .ok plan ∧
      plan.kind = .incremental ∧ plan.groups = [] ∧ plan.purged.toList = ["A"] ∧
      shadowed.find? "A" = some r ∧ shadowedRemoved.has r.source = true := by
  have hc : (select ⟨["/p", "/q"], "l"⟩ {} (.ofAnalysis shadowed) shadowedRemoved).toOption.map
      (fun plan => (plan.kind, plan.groups.length, plan.purged.toList)) =
        some (PlanKind.incremental, 0, [("A" : Text)]) := by decide +kernel
  obtain ⟨plan, h, he⟩ := exists_plan hc
  simp only [Prod.mk.injEq] at he
  obtain ⟨hk, hgroups, hpurged⟩ := he
  have hf : (shadowed.find? "A").map (·.source) = some ("/q/A.l" : Text) := by decide +kernel
  obtain ⟨r, hr, hs⟩ := Option.map_eq_some_iff.1 hf
  refine ⟨plan, r, h, hk, List.length_eq_zero_iff.1 hgroups, hpurged, hr, ?_⟩
  rw [hs]
  decide +kernel

theorem mem_purged_present_iff_shadowed : ∃ plan r,
    select ⟨["/p", "/q"], "l"⟩ {} (.ofAnalysis shadowed) shadowedRemoved = .ok plan ∧
      shadowed.find? "A" = some r ∧ shadowedRemoved.has r.source = true ∧
      plan.kind = .incremental ∧ NamedByRemoved ⟨["/p", "/q"], "l"⟩ shadowed shadowedRemoved "A" ∧
      ∀ source ∈ changedSources shadowed shadowedRemoved,
        ¬ Owns ⟨["/p", "/q"], "l"⟩ (some shadowed) source "A" := by
  obtain ⟨plan, r, h, -, -, hpurged, hr, hp⟩ := shadowed_plan
  have hm : ("A" : Text) ∈ plan.purged := Std.ExtTreeSet.mem_toList.1 (by rw [hpurged]; simp)
  exact ⟨plan, r, h, hr, hp, ((mem_purged_present_iff rfl h).1 "A" r hr hp).1 hm⟩

/-- **A unit can be forgotten while its source is there**: the file that was removed had the
    same place under another root.  Nothing is compiled either. -/
theorem present_unit_purged : ∃ plan r,
    select ⟨["/p", "/q"], "l"⟩ {} (.ofAnalysis shadowed) shadowedRemoved = .ok plan ∧
      shadowed.find? "A" = some r ∧ shadowedRemoved.has r.source = true ∧
      ("A" : Text) ∈ plan.purged ∧ plan.groups = [] := by
  obtain ⟨plan, r, h, -, hgroups, hpurged, hr, hp⟩ := shadowed_plan
  exact ⟨plan, r, h, hr, hp, Std.ExtTreeSet.mem_toList.1 (by rw [hpurged]; simp), hgroups⟩

end Rebuild
