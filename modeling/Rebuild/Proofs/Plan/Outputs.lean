/-
  What becomes of the outputs that are recorded.

  * `mem_delete_iff`: a plan deletes the outputs of the units that it compiles or forgets, so
    one to compile everything deletes all;
  * `kept_output_deleted_iff`: of a unit that the plan keeps it deletes what one of these
    units lists too; an output with two units can be lost (`kept_output_deleted`);
  * `output_deleted_or_recorded`: an output that is not deleted has its record after the
    build, whatever became of the groups.
-/
import Rebuild.Proofs.Plan.Isolation

namespace Rebuild

variable {roots : Roots} {policy : Policy} {loaded : LoadOutcome} {current : Snapshots}
  {a : Analysis} {plan : Plan} {outcomes : List Outcome} {unit path : Text}

/-- An output is recorded for a unit. -/
def Analysis.Lists (a : Analysis) (unit path : Text) : Prop :=
  ∃ r, a.find? unit = some r ∧ path ∈ r.artifacts

/-- A recorded unit that the plan neither compiles nor forgets. -/
structure Plan.Keeps (plan : Plan) (a : Analysis) (unit : Text) : Prop where
  recorded : ∃ r, a.find? unit = some r
  notMem_units : unit ∉ plan.units
  notMem_purged : unit ∉ plan.purged

instance (a : Analysis) (unit path : Text) : Decidable (a.Lists unit path) :=
  decidable_of_iff ((a.find? unit).any (·.artifacts.contains path) = true)
    (by simp only [Analysis.Lists, Option.any_eq_true, List.contains_iff_mem])

instance (plan : Plan) (a : Analysis) (unit : Text) : Decidable (plan.Keeps a unit) :=
  decidable_of_iff ((a.find? unit).isSome = true ∧ unit ∉ plan.units ∧ unit ∉ plan.purged)
    ⟨fun ⟨hr, hunits, hpurged⟩ => ⟨Option.isSome_iff_exists.1 hr, hunits, hpurged⟩,
      fun ⟨hr, hunits, hpurged⟩ => ⟨Option.isSome_iff_exists.2 hr, hunits, hpurged⟩⟩

theorem Analysis.Lists.keeps_or (hl : a.Lists unit path) (plan : Plan) :
    plan.Keeps a unit ∨ unit ∈ plan.units ∨ unit ∈ plan.purged := by
  obtain ⟨r, hr, -⟩ := hl
  by_cases hunits : unit ∈ plan.units
  · exact Or.inr (Or.inl hunits)
  · by_cases hpurged : unit ∈ plan.purged
    · exact Or.inr (Or.inr hpurged)
    · exact Or.inl ⟨⟨r, hr⟩, hunits, hpurged⟩

/-! ## What is deleted -/

theorem mem_artifactsOf {units : List Text} :
    path ∈ artifactsOf a units ↔ ∃ unit ∈ units, a.Lists unit path := by
  rw [artifactsOf, List.mem_flatMap]
  refine exists_congr fun unit => and_congr_right fun _ => ?_
  rw [Analysis.Lists]
  cases a.find? unit <;> simp

theorem mem_recordedArtifacts : path ∈ recordedArtifacts a ↔ ∃ unit, a.Lists unit path := by
  simp only [recordedArtifacts, mem_ofTexts, List.mem_flatMap, Prod.exists,
    Std.ExtTreeMap.mem_toList_iff_getElem?_eq_some]
  constructor
  · rintro ⟨unit, r, hr, hp⟩
    exact ⟨unit, r, hr, hp⟩
  · rintro ⟨unit, r, hr, hp⟩
    exact ⟨unit, r, hr, hp⟩

section
variable (hu : loaded.usable? = some a) (h : select roots policy loaded current = .ok plan)
include hu h

theorem mem_delete_of_incremental (hk : plan.kind = .incremental) :
    path ∈ plan.delete ↔
      ∃ unit, (unit ∈ plan.units ∨ Purged roots a current unit) ∧ a.Lists unit path := by
  obtain ⟨removed, changed, hr, hc, hp⟩ := judge_incremental (judge_of_incremental hu h hk)
  have hunits : plan.units = _ := (congrArg Plan.units hp).trans (incrementalPlan_units _ _ _ _)
  have hdelete : plan.delete = _ :=
    (congrArg Plan.delete hp).trans (incrementalPlan_delete _ _ _ _)
  rw [hdelete, mem_ofTexts, mem_artifactsOf, ← hunits]
  simp only [List.mem_append, Std.ExtTreeSet.mem_toList,
    (Impact.ofClaims_faithful hr hc).mem_purged]

theorem mem_delete_of_full (hk : plan.kind = .full) :
    path ∈ plan.delete ↔ ∃ unit, a.Lists unit path := by
  obtain ⟨reason, hf⟩ := fullPlan_of_full hu h hk
  obtain ⟨claimed, -, rfl⟩ := map_eq_ok.1 hf
  exact mem_recordedArtifacts

/-- A plan to compile everything keeps no unit. -/
theorem not_keeps_of_full (hk : plan.kind = .full) : ¬ plan.Keeps a unit := by
  rintro ⟨hr, hunits, hpurged⟩
  exact hpurged ((mem_purged_of_full hu h hk).2 ⟨hr, hunits⟩)

/-- **A plan deletes** the outputs of the units that it compiles or forgets. -/
theorem mem_delete_iff : path ∈ plan.delete ↔
    ∃ unit, (unit ∈ plan.units ∨ unit ∈ plan.purged) ∧ a.Lists unit path := by
  cases hk : plan.kind with
  | incremental =>
    rw [mem_delete_of_incremental hu h hk]
    refine exists_congr fun unit => and_congr_left fun _ => ?_
    rw [mem_purged_iff hu h hk]
    constructor
    · rintro (hm | hp)
      · exact Or.inl hm
      -- a unit that is forgotten and has a changed source is compiled again
      · by_cases hproduced : Produced roots a current unit
        · exact Or.inl (mem_units_of_produced hu h hk hproduced)
        · exact Or.inr ⟨hp, hproduced⟩
    · exact Or.imp_right And.left
  | full =>
    rw [mem_delete_of_full hu h hk]
    refine exists_congr fun unit => (and_iff_right_of_imp fun hl => ?_).symm
    exact (hl.keeps_or plan).resolve_left (not_keeps_of_full hu h hk)

/-- **A unit that a plan keeps loses an output** exactly when another unit lists it that is
    compiled or forgotten.  So none does in a plan to compile everything, nor where no output
    is recorded for two units. -/
theorem kept_output_deleted_iff :
    (∀ unit path, plan.Keeps a unit → a.Lists unit path → (path ∈ plan.delete ↔
      ∃ other ≠ unit, (other ∈ plan.units ∨ other ∈ plan.purged) ∧ a.Lists other path)) ∧
    (plan.kind = .full → ∀ unit, ¬ plan.Keeps a unit) ∧
    ((∀ unit other path, a.Lists unit path → a.Lists other path → unit = other) →
      ∀ unit path, plan.Keeps a unit → a.Lists unit path → path ∉ plan.delete) := by
  have hiff : ∀ unit path, plan.Keeps a unit → a.Lists unit path → (path ∈ plan.delete ↔
      ∃ other ≠ unit, (other ∈ plan.units ∨ other ∈ plan.purged) ∧ a.Lists other path) := by
    intro unit path hkeeps _
    rw [mem_delete_iff hu h]
    refine exists_congr fun other => (and_iff_right_of_imp ?_).symm
    rintro ⟨hm, -⟩ rfl
    exact hm.elim hkeeps.notMem_units hkeeps.notMem_purged
  refine ⟨hiff, fun hk unit => not_keeps_of_full hu h hk, ?_⟩
  intro hone unit path hkeeps hl hdel
  obtain ⟨other, hne, -, hother⟩ := (hiff unit path hkeeps hl).1 hdel
  exact hne (hone other unit path hother hl)

end

/-- Two units with an archive in common; `B` has an output of its own as well. -/
def sharedArchive : Analysis :=
  let records : List UnitRecord :=
    [{ name := "A", source := "/p/A.l", artifacts := ["/out/lib.a"] },
      { name := "B", source := "/p/B.l", artifacts := ["/out/B.o", "/out/lib.a"] }]
  records.foldl (fun a r => (a.putUnit r).recordSnapshot r.source { kind := .file, modified := 1 })
    (.empty "f")

/-- The source of `A` was edited. -/
def sharedArchiveEdited : Snapshots :=
  sharedArchive.snapshots.insert "/p/A.l" { kind := .file, modified := 2 }

theorem kept_output_deleted_iff_sharedArchive : ∃ plan,
    select ⟨["/p"], "l"⟩ {} (.ofAnalysis sharedArchive) sharedArchiveEdited = .ok plan ∧
      plan.Keeps sharedArchive "B" ∧ sharedArchive.Lists "B" "/out/lib.a" ∧
      (("/out/lib.a" : Text) ∈ plan.delete ↔ ∃ other ≠ ("B" : Text),
        (other ∈ plan.units ∨ other ∈ plan.purged) ∧ sharedArchive.Lists other "/out/lib.a") := by
  have hc : (select ⟨["/p"], "l"⟩ {} (.ofAnalysis sharedArchive) sharedArchiveEdited).toOption.map
      (fun plan => decide (plan.Keeps sharedArchive "B")) = some true := by decide +kernel
  obtain ⟨plan, h, he⟩ := exists_plan hc
  have hkeeps := of_decide_eq_true he
  have hl : sharedArchive.Lists "B" "/out/lib.a" := by decide +kernel
  exact ⟨plan, h, hkeeps, hl, (kept_output_deleted_iff rfl h).1 "B" _ hkeeps hl⟩

/-- `A` is compiled, and no longer into the archive. -/
def compiledApart : List Outcome := [⟨0, true, [{ name := "A", source := "/p/A.l" }], []⟩]

/-- **A unit that a plan keeps can lose an output**: `A` has it too.  The archive is still
    recorded for `B` after the build, and nothing is left to do. -/
theorem kept_output_deleted : ∃ plan next,
    select ⟨["/p"], "l"⟩ {} (.ofAnalysis sharedArchive) sharedArchiveEdited = .ok plan ∧
      plan.Keeps sharedArchive "B" ∧ sharedArchive.Lists "B" "/out/lib.a" ∧
      ("/out/lib.a" : Text) ∈ plan.delete ∧
      (merge (some sharedArchive) plan compiledApart "f").Lists "B" "/out/lib.a" ∧
      select ⟨["/p"], "l"⟩ {} (.ofAnalysis (merge (some sharedArchive) plan compiledApart "f"))
        sharedArchiveEdited = .ok next ∧ next.isEmpty = true := by
  have hc : (select ⟨["/p"], "l"⟩ {} (.ofAnalysis sharedArchive) sharedArchiveEdited).toOption.map
      (fun plan => (decide (plan.Keeps sharedArchive "B"), plan.delete.contains "/out/lib.a",
        decide ((merge (some sharedArchive) plan compiledApart "f").Lists "B" "/out/lib.a"),
        (select ⟨["/p"], "l"⟩ {} (.ofAnalysis (merge (some sharedArchive) plan compiledApart "f"))
          sharedArchiveEdited).toOption.map (·.isEmpty))) =
      some (true, true, true, some true) := by decide +kernel
  obtain ⟨plan, h, he⟩ := exists_plan hc
  simp only [Prod.mk.injEq, decide_eq_true_eq] at he
  obtain ⟨hkeeps, hdelete, hlists, hnext⟩ := he
  obtain ⟨next, hn, hempty⟩ := exists_plan hnext
  exact ⟨plan, next, h, hkeeps, by decide +kernel, Std.ExtTreeSet.contains_iff_mem.1 hdelete,
    hlists, hn, hempty⟩

/-! ## What stays recorded -/

section
variable (hu : loaded.usable? = some a) (h : select roots policy loaded current = .ok plan)
  (hout : ∀ o ∈ outcomes, o.succeeded = true → ∀ r ∈ o.units, ¬ plan.Keeps a r.name)
  (fingerprint : Text)
include hu h hout

/-- **A unit that a plan keeps** has its record after the build, if no group reports one of
    its name. -/
theorem find?_merge_of_keeps (hkeeps : plan.Keeps a unit) :
    (merge (some a) plan outcomes fingerprint).find? unit = a.find? unit := by
  have hk : plan.kind = .incremental := by
    cases hk : plan.kind with
    | incremental => rfl
    | full => exact absurd hkeeps (not_keeps_of_full hu h hk)
  have ⟨⟨r, hr⟩, hunits, hpurged⟩ := hkeeps
  rw [hr]
  refine Merge.find?_merge_of_spares (fun i G hG => ?_)
    (Merge.find?_start.2 ⟨hk, a, rfl, hr, hpurged⟩)
  refine Merge.spares_of_untouched hu h hk hG hr hunits hpurged ?_
  rintro records ⟨o, ⟨earlier, later, rfl, -⟩, hs, rfl⟩ q hq rfl
  exact hout o (by simp) hs q hq hkeeps

/-- **No output is lost track of**: it is deleted, or still recorded for its unit after the
    build. -/
theorem output_deleted_or_recorded (hl : a.Lists unit path) :
    path ∈ plan.delete ∨ (merge (some a) plan outcomes fingerprint).Lists unit path := by
  rcases hl.keeps_or plan with hkeeps | hm
  · obtain ⟨r, hr, hp⟩ := hl
    exact Or.inr ⟨r, by rw [find?_merge_of_keeps hu h hout fingerprint hkeeps, hr], hp⟩
  · exact Or.inl ((mem_delete_iff hu h).2 ⟨unit, hm, hl⟩)

end

/-- The output that only `B` has stays, with its record. -/
theorem output_deleted_or_recorded_sharedArchive : ∃ plan,
    select ⟨["/p"], "l"⟩ {} (.ofAnalysis sharedArchive) sharedArchiveEdited = .ok plan ∧
      (∀ o ∈ compiledApart, o.succeeded = true → ∀ r ∈ o.units,
        ¬ plan.Keeps sharedArchive r.name) ∧
      sharedArchive.Lists "B" "/out/B.o" ∧ ("/out/B.o" : Text) ∉ plan.delete ∧
      (merge (some sharedArchive) plan compiledApart "f").Lists "B" "/out/B.o" := by
  have hc : (select ⟨["/p"], "l"⟩ {} (.ofAnalysis sharedArchive) sharedArchiveEdited).toOption.map
      (fun plan => (decide (∀ o ∈ compiledApart, o.succeeded = true → ∀ r ∈ o.units,
        ¬ plan.Keeps sharedArchive r.name), decide (("/out/B.o" : Text) ∉ plan.delete))) =
      some (true, true) := by decide +kernel
  obtain ⟨plan, h, he⟩ := exists_plan hc
  simp only [Prod.mk.injEq, decide_eq_true_eq] at he
  obtain ⟨hout, hno⟩ := he
  have hl : sharedArchive.Lists "B" "/out/B.o" := by decide +kernel
  have hor := output_deleted_or_recorded rfl h hout "f" hl
  exact ⟨plan, h, hout, hl, hno, hor.resolve_left hno⟩

end Rebuild
