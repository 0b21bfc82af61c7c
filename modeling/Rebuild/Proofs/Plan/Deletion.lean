/-
  What becomes of the units of sources that were deleted.

  * `releases_iff`: such a unit is forgotten, or compiled from another source,
    exactly when the snapshot of its source is still recorded or another source that
    differs has it;
  * `Anchored` analyses record the snapshot of the source of every unit; merging keeps
    them so as long as every group is compiled (`merge_anchored`);
  * a group that failed keeps its units without the snapshots of their sources, so a source
    that is deleted after that leaves its units behind (`deleted_unit_stays`).
-/
import Rebuild.Plan.Session
import Rebuild.Proofs.Plan.Groups
import Rebuild.Proofs.Plan.Merge

namespace Rebuild

variable {roots : Roots} {policy : Policy} {loaded : LoadOutcome} {current : Snapshots}
  {a : Analysis} {plan : Plan}

/-! ## One step -/

/-- The unit is forgotten, or compiled from a source that is there. -/
def Plan.Releases (plan : Plan) (current : Snapshots) (unit : Text) : Prop :=
  unit ∈ plan.purged ∨ ∃ G ∈ plan.groups, ∃ source : Text, G.units[unit]? = some source ∧
    current.has source = true

/-- A unit of a changed source is compiled from one. -/
theorem exists_group_of_produced (hu : loaded.usable? = some a)
    (h : select roots policy loaded current = .ok plan) (hk : plan.kind = .incremental)
    {unit : Text} (hp : Produced roots a current unit) :
    ∃ G ∈ plan.groups, ∃ source : Text, G.units[unit]? = some source ∧
      current.has source = true := by
  obtain ⟨source, hl⟩ := exists_lastOwner hp
  have hs := hl.mem.1
  have hm : unit ∈ plan.units := mem_units_of_produced hu h hk hp
  have hassigned : Assigned roots a current plan.kind unit source := by
    rw [hk]
    exact Or.inl hl
  obtain ⟨G, hG, he⟩ := (exists_group_iff hu h).2 ⟨hm, hassigned⟩
  exact ⟨G, hG, source, he, has_of_mem_changedSources hs⟩

/-- A recorded unit of a removed or a changed source is released. -/
theorem releases_of_owns (hu : loaded.usable? = some a)
    (h : select roots policy loaded current = .ok plan) (hk : plan.kind = .incremental)
    {unit source : Text} {r : UnitRecord} (hr : a.find? unit = some r)
    (hs : source ∈ removedSources a current ∨ source ∈ changedSources a current)
    (ho : Owns roots (some a) source unit) : plan.Releases current unit := by
  by_cases hp : Produced roots a current unit
  · exact Or.inr (exists_group_of_produced hu h hk hp)
  · have hsr : source ∈ removedSources a current :=
      hs.resolve_right fun hs => hp ⟨source, hs, ho⟩
    have hpurged : Purged roots a current unit := ⟨⟨source, hsr, ho⟩, r, hr⟩
    exact Or.inl ((mem_purged_iff hu h hk).2 ⟨hpurged, hp⟩)

/-- **A unit whose source is gone** is released exactly when the snapshot of its source is
    recorded, or another source that differs has the unit. -/
theorem releases_iff (hu : loaded.usable? = some a)
    (h : select roots policy loaded current = .ok plan) (hk : plan.kind = .incremental)
    {unit : Text} {r : UnitRecord} (hr : a.find? unit = some r)
    (hgone : current.has r.source ≠ true) :
    plan.Releases current unit ↔ a.snapshots.has r.source = true ∨ ∃ source ≠ r.source,
      (source ∈ removedSources a current ∨ source ∈ changedSources a current) ∧
        Owns roots (some a) source unit := by
  have howns : Owns roots (some a) r.source unit := Or.inl (recorded_some.2 ⟨r, hr, rfl⟩)
  have hremoved : r.source ∈ removedSources a current ↔ a.snapshots.has r.source = true := by
    rw [removedSources, Std.ExtTreeSet.mem_toList, Changes.mem_removed]
    exact and_iff_left hgone
  constructor
  · rintro (hp | ⟨G, hG, source, he, hs⟩)
    · obtain ⟨⟨⟨source, hs, ho⟩, -⟩, -⟩ := (mem_purged_iff hu h hk).1 hp
      by_cases hsr : source = r.source
      · exact Or.inl (hremoved.1 (hsr ▸ hs))
      · exact Or.inr ⟨source, hsr, Or.inl hs, ho⟩
    · obtain ⟨-, ha⟩ := (exists_group_iff hu h).1 ⟨G, hG, he⟩
      rw [hk] at ha
      rcases ha with hl | ⟨-, -, hrec⟩
      · obtain ⟨hm, ho⟩ := hl.mem
        refine Or.inr ⟨source, fun hsr => hgone (hsr ▸ hs), Or.inr hm, ho⟩
      · obtain ⟨q, hq, rfl⟩ := recorded_some.1 hrec
        rw [hr] at hq
        cases hq
        exact absurd hs hgone
  · rintro (hs | ⟨source, -, hs, ho⟩)
    · exact releases_of_owns hu h hk hr (Or.inl (hremoved.2 hs)) howns
    · exact releases_of_owns hu h hk hr hs ho

/-! ## Anchored analyses -/

/-- The source of every unit has a snapshot that says it was there. -/
def Anchored (a : Analysis) : Prop :=
  ∀ unit r, a.find? unit = some r → a.snapshots.has r.source = true

/-- Live units of an anchored analysis have sources that are there. -/
theorem Anchored.has_of_sourceIn (ha : Anchored a) {unit source : Text}
    (hs : SourceIn roots a current unit source) : current.has source = true := by
  rcases hs with hl | ⟨-, hnp, hrec⟩
  · exact has_of_mem_changedSources hl.mem.1
  · obtain ⟨r, hr, rfl⟩ := recorded_some.1 hrec
    by_contra hgone
    refine hnp ⟨⟨r.source, ?_, Or.inl hrec⟩, r, hr⟩
    exact Std.ExtTreeSet.mem_toList.2 (Changes.mem_removed.2 ⟨ha unit r hr, hgone⟩)

/-- **The groups from an anchored analysis** have only sources that are there. -/
theorem has_of_mem_sources (ha : ∀ a, loaded.usable? = some a → Anchored a)
    (h : select roots policy loaded current = .ok plan) {G : Group} (hG : G ∈ plan.groups)
    {source : Text} (hs : source ∈ G.sources) : current.has source = true := by
  cases hu : loaded.usable? with
  | none =>
    obtain ⟨i, hi⟩ := List.mem_iff_getElem?.1 hG
    rw [(groups_of_no_prior hu h i G hi).2.2, mem_ofTexts] at hs
    exact mem_presentPaths.1 hs
  | some a =>
    obtain ⟨unit, hunit⟩ := (mem_group_sources hu h hG).1 hs
    obtain ⟨-, hassigned⟩ := (exists_group_iff hu h).1 ⟨G, hG, hunit⟩
    cases hk : plan.kind with
    | incremental =>
      rw [hk] at hassigned
      exact (ha a hu).has_of_sourceIn hassigned
    | full =>
      rw [hk] at hassigned
      exact mem_presentPaths.1 hassigned.mem.1

/-- The units without a snapshot of their source are those of groups still to be merged. -/
def Pending (a : Analysis) (xs : List (Group × Nat)) : Prop :=
  ∀ unit r, a.find? unit = some r → a.snapshots.has r.source = true ∨
    ∃ x ∈ xs, unit ∈ x.1.units ∨ r.source ∈ x.1.sources

section
variable {outcomes : List Outcome} (ha : ∀ a, loaded.usable? = some a → Anchored a)
  (h : select roots policy loaded current = .ok plan)
include ha h

theorem pending_start (fingerprint : Text) :
    Pending (Merge.start loaded.usable? plan fingerprint) plan.groups.zipIdx := by
  intro unit r hr
  obtain ⟨hk, a, hu, hr, hnp⟩ := Merge.find?_start.1 hr
  have hs := ha a hu unit r hr
  by_cases hgone : current.has r.source = true
  · left
    obtain ⟨before, hb, hp⟩ := Snapshots.has_iff.1 hs
    obtain ⟨i, -, hchanges, -⟩ := incremental_eq_ok hu h hk
    refine Snapshots.has_iff.2 ⟨before, Merge.getElem?_start.2 ⟨hk, a, hu, hb, ?_⟩, hp⟩
    rw [hchanges, Changes.mem_removed]
    exact fun hm => hm.2 hgone
  · right
    obtain ⟨G, hG, source, he, -⟩ :=
      ((releases_iff hu h hk hr hgone).2 (Or.inl hs)).resolve_left hnp
    obtain ⟨i, hi⟩ := List.mem_iff_getElem?.1 hG
    refine ⟨(G, i), List.mem_zipIdx_iff_getElem?.2 hi, Or.inl ?_⟩
    exact mem_iff_exists.2 ⟨source, he⟩

/-- Merging a compiled group leaves no unit of it without the snapshot of its source. -/
theorem pending_step (hall : Merge.AllSucceed plan outcomes)
    (hown : Merge.OwnReports plan outcomes) {b : Analysis} {x : Group × Nat}
    {xs : List (Group × Nat)} (hx : x ∈ plan.groups.zipIdx) (hb : Pending b (x :: xs)) :
    Pending (Merge.step plan outcomes b x) xs := by
  obtain ⟨o, ho, hg, hstep⟩ := hall.step_eq hx
  intro unit r hr
  rw [hstep, Merge.find?_commit] at hr
  simp only [hstep, Snapshots.has, Merge.getElem?_commit]
  rcases hr with ⟨-, earlier, later, he, -⟩ | ⟨-, hr, hunit, hsource⟩
  · have hG : plan.groups[o.group]? = some x.1 := hg ▸ List.mem_zipIdx_iff_getElem?.1 hx
    have hs := hown o ho x.1 hG r (by rw [he]; simp)
    have hp := has_of_mem_sources ha h (List.mem_of_getElem? hG) hs
    obtain ⟨now, hn, hp⟩ := Snapshots.has_iff.1 hp
    left
    simp [hs, plan_snapshots h, hn, Option.filter, hp]
  · rw [if_neg hsource]
    rcases hb unit r hr with hs | ⟨y, hy, hm⟩
    · exact Or.inl hs
    · right
      rcases List.mem_cons.1 hy with rfl | hy
      · exact absurd hm (not_or.2 ⟨hunit, hsource⟩)
      · exact ⟨y, hy, hm⟩

/-- **Merging keeps an analysis anchored** when every group was compiled. -/
theorem merge_anchored (hall : Merge.AllSucceed plan outcomes)
    (hown : Merge.OwnReports plan outcomes) (fingerprint : Text) :
    Anchored (merge loaded.usable? plan outcomes fingerprint) := by
  have hrun : ∀ (xs : List (Group × Nat)) b, (∀ x ∈ xs, x ∈ plan.groups.zipIdx) →
      Pending b xs → Pending (xs.foldl (Merge.step plan outcomes) b) [] := by
    intro xs
    induction xs with
    | nil => exact fun b _ hb => hb
    | cons x xs ih =>
      intro b hxs hb
      exact ih _ (fun y hy => hxs y (List.mem_cons_of_mem x hy))
        (pending_step ha h hall hown (hxs x List.mem_cons_self) hb)
  intro unit r hr
  rw [Merge.merge_eq] at hr ⊢
  rcases hrun _ _ (fun x hx => hx) (pending_start ha h fingerprint) unit r hr with hs | ⟨x, hx, -⟩
  · exact hs
  · simp at hx

end

/-! ## Sessions -/

namespace Session

/-- The analyses that steps can lead to when the outcomes of every plan are as told. -/
inductive ReachesBy (s : Session) (told : Plan → List Outcome → Prop) : Option Analysis → Prop
  /-- Before the first step there is none. -/
  | start : ReachesBy s told none
  | step {last : Option Analysis} {current : Snapshots} {fingerprint : Text}
      {compile : Plan → List Outcome} {plan : Plan} {next : Analysis} :
      ReachesBy s told last →
      s.step (prior last) current fingerprint compile = .ok (plan, next) →
      told plan (compile plan) → ReachesBy s told (some next)

variable {s : Session} {told : Plan → List Outcome → Prop} {last : Option Analysis}

theorem usable?_prior : (prior last).usable? = last := by
  cases last <;> rfl

theorem step_eq_ok {current : Snapshots} {fingerprint : Text} {compile : Plan → List Outcome}
    {next : Analysis} (h : s.step loaded current fingerprint compile = .ok (plan, next)) :
    select s.roots s.policy loaded current = .ok plan ∧
      next = merge loaded.usable? plan (compile plan) fingerprint := by
  obtain ⟨p, hp, he⟩ := map_eq_ok.1 h
  cases he
  exact ⟨hp, rfl⟩

/-- Every group is compiled and reports only units of its own sources. -/
def Clean (plan : Plan) (outcomes : List Outcome) : Prop :=
  Merge.AllSucceed plan outcomes ∧ Merge.OwnReports plan outcomes

instance (plan : Plan) (outcomes : List Outcome) : Decidable (Clean plan outcomes) :=
  inferInstanceAs (Decidable (_ ∧ _))

/-- **Clean sessions** lead to anchored analyses only. -/
theorem ReachesBy.anchored (h : s.ReachesBy Clean last) : ∀ a, last = some a → Anchored a := by
  induction h with
  | start => simp
  | step _ hstep hclean ih =>
    obtain ⟨hsel, rfl⟩ := step_eq_ok hstep
    rintro _ ⟨⟩
    refine merge_anchored (fun a hu => ih a ?_) hsel hclean.1 hclean.2 _
    rwa [usable?_prior] at hu

/-- **What becomes of the units of deleted sources.**  In any step a unit whose source is
    gone is released exactly when the snapshot of its source is recorded, or another source
    that differs has the unit.  In sessions where every group is compiled they all are, no
    group has a deleted source, and no live unit has one. -/
theorem releases_deleted_iff (h : select s.roots s.policy (.ofAnalysis a) current = .ok plan)
    (hk : plan.kind = .incremental) :
    (∀ unit r, a.find? unit = some r → current.has r.source ≠ true →
      (plan.Releases current unit ↔ a.snapshots.has r.source = true ∨ ∃ source ≠ r.source,
        (source ∈ removedSources a current ∨ source ∈ changedSources a current) ∧
          Owns s.roots (some a) source unit)) ∧
    (s.ReachesBy Clean (some a) →
      (∀ unit r, a.find? unit = some r → current.has r.source ≠ true →
        plan.Releases current unit) ∧
      (∀ G ∈ plan.groups, ∀ source ∈ G.sources, current.has source = true) ∧
      ∀ unit source, SourceIn s.roots a current unit source → current.has source = true) := by
  have hu : (LoadOutcome.ofAnalysis a).usable? = some a := rfl
  have hiff : ∀ unit r, a.find? unit = some r → current.has r.source ≠ true → _ :=
    fun unit r hr hgone => releases_iff hu h hk hr hgone
  refine ⟨hiff, fun hs => ?_⟩
  have ha := hs.anchored a rfl
  refine ⟨fun unit r hr hgone => (hiff unit r hr hgone).2 (Or.inl (ha unit r hr)),
    fun G hG source hsrc => ?_, fun unit source hsrc => ha.has_of_sourceIn hsrc⟩
  refine has_of_mem_sources (fun b hb => ?_) h hG hsrc
  cases hb
  exact ha

/-! ### A source whose group failed is deleted -/

/-- A session over one root. -/
def sample : Session := { roots := ⟨["/p"], "l"⟩ }

/-- Two sources. -/
def both : Snapshots :=
  ["/p/A.l", "/p/B.l"].foldl (fun s path => s.insert path { kind := .file, modified := 1 }) ∅

/-- The first of them was edited. -/
def edited : Snapshots := both.insert "/p/A.l" { kind := .file, modified := 2 }

/-- The first of them is gone. -/
def deleted : Snapshots := both.erase "/p/A.l"

/-- Both are compiled. -/
def compileBoth (_ : Plan) : List Outcome :=
  [⟨0, true, [{ name := "A", source := "/p/A.l" }, { name := "B", source := "/p/B.l" }], []⟩]

/-- The first one is compiled. -/
def compileFirst (_ : Plan) : List Outcome :=
  [⟨0, true, [{ name := "A", source := "/p/A.l" }], []⟩]

/-- Nothing is compiled. -/
def compileNone (_ : Plan) : List Outcome := [⟨0, false, [], []⟩]

/-- The step in which both sources are new. -/
def firstStep : Option (Plan × Analysis) :=
  (sample.step (prior none) both "f" compileBoth).toOption

/-- The step in which the first one was edited. -/
def secondStep (compile : Plan → List Outcome) : Option (Plan × Analysis) :=
  firstStep.bind fun x => (sample.step (prior (some x.2)) edited "f" compile).toOption

/-- The analysis after both steps, and the plan when the first source is gone. -/
def thirdPlan (compile : Plan → List Outcome) : Option (Analysis × Plan) :=
  (secondStep compile).bind fun x =>
    (select sample.roots sample.policy (.ofAnalysis x.2) deleted).toOption.map (x.2, ·)

theorem reachesBy_thirdPlan {compile : Plan → List Outcome}
    (h1 : ∀ x ∈ firstStep, told x.1 (compileBoth x.1))
    (h2 : ∀ x ∈ secondStep compile, told x.1 (compile x.1))
    (h : thirdPlan compile = some (a, plan)) : sample.ReachesBy told (some a) ∧
      select sample.roots sample.policy (.ofAnalysis a) deleted = .ok plan := by
  obtain ⟨⟨plan₂, b⟩, hb, h⟩ := Option.bind_eq_some_iff.1 h
  obtain ⟨p, hp, he⟩ := Option.map_eq_some_iff.1 h
  cases he
  obtain ⟨⟨plan₁, c⟩, hc, hstep⟩ := Option.bind_eq_some_iff.1 hb
  refine ⟨.step (.step .start (toOption_eq_some.1 hc) (h1 _ hc)) (toOption_eq_some.1 hstep)
    (h2 _ hb), toOption_eq_some.1 hp⟩

theorem releases_deleted_iff_sample : ∃ a plan r, sample.ReachesBy Clean (some a) ∧
    select sample.roots sample.policy (.ofAnalysis a) deleted = .ok plan ∧
      plan.kind = .incremental ∧ a.find? "A" = some r ∧ deleted.has r.source ≠ true ∧
        plan.Releases deleted "A" := by
  have hc : (thirdPlan compileFirst).map (fun x => (x.2.kind, (x.1.find? "A").map (·.source))) =
      some (PlanKind.incremental, some ("/p/A.l" : Text)) := by decide +kernel
  obtain ⟨⟨a, plan⟩, h, he⟩ := Option.map_eq_some_iff.1 hc
  obtain ⟨hk, hf⟩ := Prod.mk.inj he
  obtain ⟨r, hr, hs⟩ := Option.map_eq_some_iff.1 hf
  have h1 : ∀ x ∈ firstStep, Clean x.1 (compileBoth x.1) := by decide +kernel
  have h2 : ∀ x ∈ secondStep compileFirst, Clean x.1 (compileFirst x.1) := by decide +kernel
  obtain ⟨hreach, hsel⟩ := reachesBy_thirdPlan h1 h2 h
  have hgone : deleted.has r.source ≠ true := by
    rw [hs]
    decide +kernel
  exact ⟨a, plan, r, hreach, hsel, hk, hr, hgone,
    ((releases_deleted_iff hsel hk).2 hreach).1 "A" r hr hgone⟩

/-- **A unit can outlive its source**: its group failed, and then the source was deleted. -/
theorem deleted_unit_stays : ∃ a plan r, sample.ReachesBy Merge.OwnReports (some a) ∧
    select sample.roots sample.policy (.ofAnalysis a) deleted = .ok plan ∧
      plan.kind = .incremental ∧ a.find? "A" = some r ∧ deleted.has r.source ≠ true ∧
        ¬ plan.Releases deleted "A" := by
  have hc : (thirdPlan compileNone).map (fun x =>
      (x.2.kind, (x.1.find? "A").map (·.source), x.2.purged.toList, x.2.groups.length)) =
      some (PlanKind.incremental, some ("/p/A.l" : Text), ([] : List Text), 0) := by decide +kernel
  obtain ⟨⟨a, plan⟩, h, he⟩ := Option.map_eq_some_iff.1 hc
  simp only [Prod.mk.injEq] at he
  obtain ⟨hk, hf, hpurged, hgroups⟩ := he
  obtain ⟨r, hr, hs⟩ := Option.map_eq_some_iff.1 hf
  have h1 : ∀ x ∈ firstStep, Merge.OwnReports x.1 (compileBoth x.1) := by decide +kernel
  have h2 : ∀ x ∈ secondStep compileNone, Merge.OwnReports x.1 (compileNone x.1) := by
    decide +kernel
  obtain ⟨hreach, hsel⟩ := reachesBy_thirdPlan h1 h2 h
  refine ⟨a, plan, r, hreach, hsel, hk, hr, ?_, ?_⟩
  · rw [hs]
    decide +kernel
  · rintro (hp | ⟨G, hG, -⟩)
    · rw [← Std.ExtTreeSet.mem_toList, hpurged] at hp
      simp at hp
    · rw [List.length_eq_zero_iff.1 hgroups] at hG
      simp at hG

end Session

end Rebuild
