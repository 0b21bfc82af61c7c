/-
  What becomes of the units that depend on a name when a unit of that name appears.

  A dependency on a name that no unit has is kept, so that a unit of that name can be
  followed once there is one.  A plan is made before anything is compiled.

  * `Announced` names are those that removed and changed sources without a record stand for:
    the ones without a record that the changes reach (`reached_new_iff`);
  * `mem_units_iff_of_new`: what depends on a new name is compiled along with it when the
    name is announced, or when something else reaches it;
  * `follows_new_iff`: otherwise no later plan has to compile it.  A unit can be reported
    that nothing announced, and what depends on it stays as it is (`dependent_of_new_left`).
-/
import Rebuild.Proofs.Plan.Deletion
import Rebuild.Proofs.Plan.Idempotence

namespace Rebuild

variable {roots : Roots} {policy : Policy} {loaded : LoadOutcome} {current : Snapshots}
  {a : Analysis} {plan : Plan} {outcomes : List Outcome} {n unit : Text} {r q : UnitRecord}

/-! ## What reaches a unit -/

section
variable (roots : Roots) (a : Analysis) (current : Snapshots)

/-- A removed or changed source without a record stands for the name. -/
def Announced (n : Text) : Prop :=
  ∃ source, (source ∈ removedSources a current ∨ source ∈ changedSources a current) ∧
    (∀ other, ¬ Recorded (some a) source other) ∧ roots.unitName source = .ok n

/-- Something other than the dependency on `n` makes the changes reach the unit: a source of
    its own, another dependency, one on every unit, or a unit of the same source. -/
def ReachedBeside (n unit : Text) (r : UnitRecord) : Prop :=
  (∃ source, (source ∈ removedSources a current ∨ source ∈ changedSources a current) ∧
      Owns roots (some a) source unit) ∨
    (∃ other ∈ r.dependencies, other ≠ n ∧ other ≠ wildcard ∧ Reached roots a current other) ∨
    (wildcard ∈ r.dependencies ∧
      ∃ other, Reached roots a current other ∧ Live roots a current other) ∨
    ∃ other, Reached roots a current other ∧ SourceIn roots a current other r.source

end

/-- Of the names without a record the changes reach those that are announced. -/
theorem reached_new_iff (hn : a.find? n = none) :
    Reached roots a current n ↔ Announced roots a current n := by
  have hno : ∀ source, ¬ Recorded (some a) source n := by
    intro source hrec
    obtain ⟨r, hr, -⟩ := recorded_some.1 hrec
    rw [hn] at hr
    cases hr
  constructor
  · intro h
    cases h with
    | seed hs ho =>
      obtain ho | ⟨hnone, hname⟩ := ho
      · exact absurd ho (hno _)
      · exact ⟨_, hs, hnone, hname⟩
    | dependent hr =>
      rw [hn] at hr
      cases hr
    | spanning _ _ hr =>
      rw [hn] at hr
      cases hr
    | sibling _ _ hrec => exact absurd hrec (hno _)
  · rintro ⟨source, hs, hnone, hname⟩
    exact .seed hs (Or.inr ⟨hnone, hname⟩)

/-- A live unit that depends on a name is reached through the name or beside it. -/
theorem reached_iff_beside (hr : a.find? unit = some r) (hl : Live roots a current unit)
    (hd : n ∈ r.dependencies) (hw : n ≠ wildcard) :
    Reached roots a current unit ↔
      Reached roots a current n ∨ ReachedBeside roots a current n unit r := by
  constructor
  · intro h
    cases h with
    | seed hs ho => exact Or.inr (Or.inl ⟨_, hs, ho⟩)
    | @dependent _ other _ hr' hm hne hreach =>
      rw [hr] at hr'
      cases hr'
      by_cases hn : other = n
      · exact Or.inl (hn ▸ hreach)
      · exact Or.inr (Or.inr (Or.inl ⟨other, hm, hn, hne, hreach⟩))
    | spanning hreach hlive hr' hm =>
      rw [hr] at hr'
      cases hr'
      exact Or.inr (Or.inr (Or.inr (Or.inl ⟨hm, _, hreach, hlive⟩)))
    | sibling hreach hs hrec =>
      obtain ⟨r', hr', rfl⟩ := recorded_some.1 hrec
      rw [hr] at hr'
      cases hr'
      exact Or.inr (Or.inr (Or.inr (Or.inr ⟨_, hreach, hs⟩)))
  · rintro (hreach | ⟨source, hs, ho⟩ | ⟨other, hm, -, hne, hreach⟩ | ⟨hm, other, hreach, hlive⟩ |
      ⟨other, hreach, hs⟩)
    · exact .dependent hr hd hw hreach
    · exact .seed hs ho
    · exact .dependent hr hm hne hreach
    · exact .spanning hreach hlive hr hm hl
    · exact .sibling hreach hs (recorded_some.2 ⟨r, hr, rfl⟩) hl

/-! ## The step in which the unit appears -/

/-- A unit that a merge adds was reported by a group. -/
theorem Merge.exists_report_of_new (hn : a.find? n = none) {fingerprint : Text}
    (hq : (merge (some a) plan outcomes fingerprint).find? n = some q) :
    ∃ i G, plan.groups[i]? = some G ∧ Merge.LastReport outcomes i q ∧ q.name = n := by
  rcases Merge.find?_merge_origin hq with ⟨i, G, hG, hl, hname⟩ | hs
  · exact ⟨i, G, hG, hl, hname⟩
  · obtain ⟨-, b, ⟨⟩, hb, -⟩ := Merge.find?_start.1 hs
    rw [hn] at hb
    cases hb

section
variable (hu : loaded.usable? = some a) (h : select roots policy loaded current = .ok plan)
include hu h

/-- A plan with a report of a group's own source compiles a unit. -/
theorem exists_mem_units_of_report (hown : Merge.OwnReports plan outcomes) {i : Nat} {G : Group}
    (hG : plan.groups[i]? = some G) (hl : Merge.LastReport outcomes i q) :
    ∃ other, other ∈ plan.units := by
  obtain ⟨o, ho, rfl, hq⟩ := hl.exists_outcome
  have hs : q.source ∈ G.sources := hown o ho G hG q hq
  have hm : G ∈ plan.groups := List.mem_of_getElem? hG
  obtain ⟨other, hother⟩ := (mem_group_sources hu h hm).1 hs
  exact ⟨other, mem_units_of_mem_group hu h hm (mem_iff_exists.2 ⟨_, hother⟩)⟩

/-- **What depends on a new unit** is compiled in the same step when everything is, when it
    depends on every unit, when the name was announced, or when something else reaches it. -/
theorem mem_units_iff_of_new (hown : Merge.OwnReports plan outcomes) (hn : a.find? n = none)
    {fingerprint : Text} (hq : (merge (some a) plan outcomes fingerprint).find? n = some q)
    (hr : a.find? unit = some r) (hd : n ∈ r.dependencies) (hp : current.has r.source = true)
    (hkept : unit ∉ plan.purged) :
    unit ∈ plan.units ↔ plan.kind = .full ∨ n = wildcard ∨ Announced roots a current n ∨
      ReachedBeside roots a current n unit r := by
  cases hk : plan.kind with
  | full =>
    have hrec : Recorded (some a) r.source unit := recorded_some.2 ⟨r, hr, rfl⟩
    have hm : unit ∈ plan.units :=
      (mem_units_of_full hu h hk).2 ⟨r.source, mem_presentPaths.2 hp, Or.inl hrec⟩
    exact iff_of_true hm (Or.inl rfl)
  | incremental =>
    have hl : Live roots a current unit := live_of_notMem_purged hu h hk ⟨r, hr⟩ hkept
    rw [mem_units_iff hu h hk, and_iff_right hl]
    by_cases hw : n = wildcard
    · -- the group that reports the unit has a unit of its own, which the changes reach
      obtain ⟨i, G, hG, hreport, -⟩ := Merge.exists_report_of_new hn hq
      obtain ⟨other, hother⟩ := exists_mem_units_of_report hu h hown hG hreport
      obtain ⟨hlive, hreach⟩ := (mem_units_iff hu h hk).1 hother
      exact iff_of_true (.spanning hreach hlive hr (hw ▸ hd) hl) (Or.inr (Or.inl hw))
    · rw [reached_iff_beside hr hl hd hw, reached_new_iff hn]
      simp [hw]

end

/-! ## The next step -/

/-- Nothing differs from a recorded state of the sources. -/
theorem unchanged_recorded (a : Analysis) :
    removedSources a a.snapshots = [] ∧ changedSources a a.snapshots = [] := by
  constructor
  · rw [List.eq_nil_iff_forall_not_mem]
    intro path hm
    obtain ⟨hhas, hno⟩ := Changes.mem_removed.1 (Std.ExtTreeSet.mem_toList.1 hm)
    exact hno hhas
  · rw [List.eq_nil_iff_forall_not_mem]
    intro path hm
    rcases List.mem_append.1 hm with hm | hm
    · obtain ⟨before, now, hb, hnow, -, -, hs⟩ :=
        Changes.mem_modified.1 (Std.ExtTreeSet.mem_toList.1 hm)
      rw [hb] at hnow
      cases hnow
      simp [Snapshot.same] at hs
    · obtain ⟨hhas, hno⟩ := Changes.mem_added.1 (Std.ExtTreeSet.mem_toList.1 hm)
      exact hno hhas

/-- **A recorded unit has to be compiled next**, whatever the sources are then, exactly when
    the snapshot of its source is not recorded. -/
theorem mem_next_units_iff (hf : Binary64.zero.le policy.fraction = true)
    (hr : a.find? unit = some r) :
    (∀ now next, select roots policy (.ofAnalysis a) now = .ok next → now.has r.source = true →
        unit ∈ next.units) ↔ a.snapshots.has r.source ≠ true := by
  have hrec : Recorded (some a) r.source unit := recorded_some.2 ⟨r, hr, rfl⟩
  constructor
  · intro hall hs
    -- with the sources as they were recorded, nothing is compiled
    obtain ⟨hremoved, hchanged⟩ := unchanged_recorded a
    obtain ⟨next, hnext, hk, -⟩ := @select_unchanged roots policy _ _ hf hremoved hchanged
    have hm : unit ∈ next.units := hall _ next hnext hs
    have hreach := ((mem_units_iff rfl hnext hk).1 hm).2
    exact not_reached_of_unchanged hremoved hchanged unit hreach
  · intro hs now next hnext hp
    -- a source without a snapshot counts as added, and the unit is recorded with it
    have hadded := Changes.mem_added.2 ⟨hp, hs⟩
    have hc : r.source ∈ changedSources a now :=
      List.mem_append_right _ (Std.ExtTreeSet.mem_toList.2 hadded)
    exact mem_units_of_owns rfl hnext (mem_candidates_of_changed next.kind hc) (Or.inl hrec)

namespace Session

variable {s : Session} {merged : Analysis} {fingerprint : Text} {compile : Plan → List Outcome}

/-- **What depends on a new unit** and keeps its record is compiled in this step or, whatever
    the sources are then, in the next one, exactly when the name was announced or something
    else reaches it, or else when the snapshot of its source is not recorded.  So it always is
    when the groups report no units but their own. -/
theorem follows_new_iff (hf : Binary64.zero.le s.policy.fraction = true)
    (h : s.step (prior (some a)) current fingerprint compile = .ok (plan, merged))
    (hown : Merge.OwnReports plan (compile plan)) (hn : a.find? n = none)
    (hq : merged.find? n = some q) (hr : a.find? unit = some r) (hd : n ∈ r.dependencies)
    (hp : current.has r.source = true) (hkept : unit ∉ plan.purged)
    (hm : merged.find? unit = some r) :
    ((∀ now next, select s.roots s.policy (prior (some merged)) now = .ok next →
        now.has r.source = true → unit ∈ plan.units ∨ unit ∈ next.units) ↔
      (plan.kind = .full ∨ n = wildcard ∨ Announced s.roots a current n ∨
        ReachedBeside s.roots a current n unit r) ∨ merged.snapshots.has r.source ≠ true) ∧
    ((∀ o ∈ compile plan, ∀ report ∈ o.units, report.name ∈ plan.units) →
      unit ∈ plan.units) := by
  obtain ⟨hsel, rfl⟩ := step_eq_ok h
  have hu : (prior (some a)).usable? = some a := rfl
  rw [hu] at hq hm ⊢
  have hthis := mem_units_iff_of_new hu hsel hown hn hq hr hd hp hkept
  constructor
  · rw [← hthis]
    by_cases hc : unit ∈ plan.units
    · exact iff_of_true (fun _ _ _ _ => Or.inl hc) (Or.inl hc)
    · simp only [hc, false_or]
      exact mem_next_units_iff hf hm
  · intro hnames
    -- the new name is itself in the plan, and without a record only an announced one can be
    obtain ⟨i, G, hG, hreport, hname⟩ := Merge.exists_report_of_new hn hq
    obtain ⟨o, ho, -, hmem⟩ := hreport.exists_outcome
    have hnew : n ∈ plan.units := hname ▸ hnames o ho q hmem
    cases hk : plan.kind with
    | full => exact hthis.2 (Or.inl hk)
    | incremental =>
      have hreach := ((mem_units_iff hu hsel hk).1 hnew).2
      exact hthis.2 (Or.inr (Or.inr (Or.inl ((reached_new_iff hn).1 hreach))))

/-! ### A unit of a name that another one depends on -/

/-- Every group is compiled, and reports what is told of its sources. -/
def compileFrom (told : Text → List UnitRecord) (plan : Plan) : List Outcome :=
  plan.groups.zipIdx.map fun (G, i) => ⟨i, true, G.sources.toList.flatMap told, []⟩

/-- `A` comes with some further units, and `B` depends on the name `N`. -/
def withFurther (further : List Text) (source : Text) : List UnitRecord :=
  if source = "/p/A.l" then (("A" : Text) :: further).map fun n => { name := n, source }
  else if source = "/p/B.l" then [{ name := "B", source, dependencies := TextSet.ofTexts ["N"] }]
  else [{ name := "N", source }]

/-- A step in which every group reports only units of its own sources. -/
def ownStep (last : Option Analysis) (now : Snapshots) (further : List Text) :
    Option (Plan × Analysis) :=
  let compile := compileFrom (withFurther further)
  (sample.step (prior last) now "f" compile).toOption.filter fun x =>
    decide (Merge.OwnReports x.1 (compile x.1))

/-- The first step, when there is no unit `N`, and one more: the analysis before it, its plan,
    and the analysis after it. -/
def twoSteps (now : Snapshots) (further : List Text) : Option (Analysis × Plan × Analysis) :=
  (ownStep none both []).bind fun x => (ownStep (some x.2) now further).map (x.2, ·)

/-- The unit `N` appears, and `B` keeps its record, which depends on the name. -/
def appears (a merged : Analysis) : Bool :=
  !a.has "N" && merged.has "N" && decide (merged.find? "B" = a.find? "B") &&
    (a.find? "B").any fun r =>
      r.dependencies.contains "N" && decide (r.source = ("/p/B.l" : Text))

theorem ownStep_eq_some {last : Option Analysis} {now : Snapshots} {further : List Text}
    (h : ownStep last now further = some (plan, merged)) :
    sample.step (prior last) now "f" (compileFrom (withFurther further)) = .ok (plan, merged) ∧
      Merge.OwnReports plan (compileFrom (withFurther further) plan) := by
  obtain ⟨hstep, hown⟩ := Option.filter_eq_some_iff.1 h
  exact ⟨toOption_eq_some.1 hstep, of_decide_eq_true hown⟩

theorem twoSteps_eq_some {now : Snapshots} {further : List Text}
    (h : twoSteps now further = some (a, plan, merged)) :
    sample.ReachesBy Merge.OwnReports (some a) ∧
      sample.step (prior (some a)) now "f" (compileFrom (withFurther further)) =
        .ok (plan, merged) ∧
      Merge.OwnReports plan (compileFrom (withFurther further) plan) := by
  obtain ⟨⟨plan₁, b⟩, hfirst, h⟩ := Option.bind_eq_some_iff.1 h
  obtain ⟨x, hsecond, he⟩ := Option.map_eq_some_iff.1 h
  cases he
  obtain ⟨hfirst, hown⟩ := ownStep_eq_some hfirst
  exact ⟨.step .start hfirst hown, ownStep_eq_some hsecond⟩

theorem of_appears (h : appears a merged = true) : ∃ q r, a.find? "N" = none ∧
    merged.find? "N" = some q ∧ a.find? "B" = some r ∧ merged.find? "B" = some r ∧
      ("N" : Text) ∈ r.dependencies ∧ r.source = "/p/B.l" := by
  simp only [appears, Bool.and_eq_true, Bool.not_eq_true', Impact.has_iff, decide_eq_true_eq,
    Option.any_eq_true, Std.ExtTreeSet.contains_iff_mem] at h
  obtain ⟨⟨⟨hn, q, hq⟩, hm⟩, r, hr, hd, hs⟩ := h
  refine ⟨q, r, ?_, hq, hr, hm.trans hr, hd, hs⟩
  rw [Option.eq_none_iff_forall_ne_some]
  intro q' hq'
  rw [Impact.has_iff.2 ⟨q', hq'⟩] at hn
  cases hn

/-- A source for `N` was added. -/
def withN : Snapshots := both.insert "/p/N.l" { kind := .file, modified := 1 }

theorem follows_new_iff_sample : ∃ a plan merged q r,
    sample.step (prior (some a)) withN "f" (compileFrom (withFurther [])) = .ok (plan, merged) ∧
      a.find? "N" = none ∧ merged.find? "N" = some q ∧ a.find? "B" = some r ∧
      merged.find? "B" = some r ∧ ("B" : Text) ∈ plan.units ∧
      ((plan.kind = .full ∨ ("N" : Text) = wildcard ∨ Announced sample.roots a withN "N" ∨
        ReachedBeside sample.roots a withN "N" "B" r) ∨
          merged.snapshots.has r.source ≠ true) := by
  have hc : (twoSteps withN []).map (fun (a, plan, merged) =>
      (appears a merged, plan.purged.toList, decide (∀ o ∈ compileFrom (withFurther []) plan,
        ∀ r ∈ o.units, r.name ∈ plan.units))) = some (true, [], true) := by decide +kernel
  obtain ⟨⟨a, plan, merged⟩, h, he⟩ := Option.map_eq_some_iff.1 hc
  simp only [Prod.mk.injEq, decide_eq_true_eq] at he
  obtain ⟨happears, hpurged, hnames⟩ := he
  obtain ⟨-, hstep, hown⟩ := twoSteps_eq_some h
  obtain ⟨q, r, hn, hq, hr, hm, hd, hs⟩ := of_appears happears
  have hp : withN.has r.source = true := by
    rw [hs]
    decide +kernel
  have hkept : ("B" : Text) ∉ plan.purged := by
    rw [← Std.ExtTreeSet.mem_toList, hpurged]
    simp
  obtain ⟨hiff, hunits⟩ := follows_new_iff (by decide +kernel) hstep hown hn hq hr hd hp hkept hm
  have hunit := hunits hnames
  exact ⟨a, plan, merged, q, r, hstep, hn, hq, hr, hm, hunit, hiff.1 fun _ _ _ _ => Or.inl hunit⟩

/-- **What depends on a new unit can be left as it is**: the unit was reported along with
    another one of its source, and nothing differs in the next step. -/
theorem dependent_of_new_left : ∃ a plan merged q r next,
    sample.ReachesBy Merge.OwnReports (some a) ∧
      sample.step (prior (some a)) edited "f" (compileFrom (withFurther ["N"])) =
        .ok (plan, merged) ∧
      Merge.OwnReports plan (compileFrom (withFurther ["N"]) plan) ∧
      a.find? "N" = none ∧ merged.find? "N" = some q ∧
      a.find? "B" = some r ∧ ("N" : Text) ∈ r.dependencies ∧ merged.find? "B" = some r ∧
      edited.has r.source = true ∧
      select sample.roots sample.policy (prior (some merged)) edited = .ok next ∧
      ("B" : Text) ∉ plan.units ∧ ("B" : Text) ∉ next.units := by
  have hc : (twoSteps edited ["N"]).map (fun (a, plan, merged) =>
      (appears a merged, plan.units.toList, (select sample.roots sample.policy
        (prior (some merged)) edited).toOption.map (·.units.toList))) =
      some (true, [("A" : Text)], some []) := by decide +kernel
  obtain ⟨⟨a, plan, merged⟩, h, he⟩ := Option.map_eq_some_iff.1 hc
  simp only [Prod.mk.injEq] at he
  obtain ⟨happears, hunits, hnext⟩ := he
  obtain ⟨next, hnext, hnone⟩ := Option.map_eq_some_iff.1 hnext
  obtain ⟨hreach, hstep, hown⟩ := twoSteps_eq_some h
  obtain ⟨q, r, hn, hq, hr, hm, hd, hs⟩ := of_appears happears
  refine ⟨a, plan, merged, q, r, next, hreach, hstep, hown, hn, hq, hr, hd, hm, ?_,
    toOption_eq_some.1 hnext, ?_, ?_⟩
  · rw [hs]
    decide +kernel
  · rw [← Std.ExtTreeSet.mem_toList, hunits]
    decide
  · rw [← Std.ExtTreeSet.mem_toList, hnone]
    simp

end Session

end Rebuild
