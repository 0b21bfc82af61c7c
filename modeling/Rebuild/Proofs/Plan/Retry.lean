/-
  Groups that failed are compiled again.

  * `not_has_merge_of_failed`: after a merge no snapshot is recorded for a source of a group
    that was not compiled, since no other group has the source;
  * `select_after_failure`: a later plan compiles all units of such a source if it is there,
    whatever became of the sources in between.
-/
import Rebuild.Proofs.Plan.Coverage
import Rebuild.Proofs.Plan.Merge

namespace Rebuild

variable {roots : Roots} {policy : Policy} {loaded later : LoadOutcome} {current now : Snapshots}
  {a : Analysis} {plan next : Plan} {outcomes : List Outcome} {source : Text}

/-- What a merge records of a source is told by the one group that has it. -/
theorem snapshots_merge_of_mem (h : select roots policy loaded current = .ok plan) {i : Nat}
    {G : Group} (hG : plan.groups[i]? = some G) (hs : source ∈ G.sources)
    (prior : Option Analysis) (outcomes : List Outcome) (fingerprint : Text) :
    (merge prior plan outcomes fingerprint).snapshots[source]? =
      Merge.noted plan outcomes i source := by
  rcases Merge.snapshots_merge prior plan outcomes fingerprint source with
    ⟨j, H, hH, hj, hm⟩ | ⟨hno, -⟩
  · have hij : i = j := eq_of_mem_group_sources h hG hH hs hj
    rw [hm, hij]
  · exact absurd hs (hno G (List.mem_of_getElem? hG))

/-- **A source whose group was not compiled** has no snapshot after the merge. -/
theorem not_has_merge_of_failed (h : select roots policy loaded current = .ok plan) {i : Nat}
    {G : Group} (hG : plan.groups[i]? = some G) (hf : Merge.Failed outcomes i)
    (hs : source ∈ G.sources) (prior : Option Analysis) (fingerprint : Text) :
    (merge prior plan outcomes fingerprint).snapshots.has source ≠ true := by
  have hnone := snapshots_merge_of_mem h hG hs prior outcomes fingerprint
  rw [hf.noted_eq] at hnone
  intro hhas
  obtain ⟨s, hsome, -⟩ := Snapshots.has_iff.1 hhas
  rw [hnone] at hsome
  cases hsome

/-- **A group that failed is compiled again.**  If a source of it is there in a later
    selection, the source has a unit, and the plan compiles all units that it has by then. -/
theorem select_after_failure (h : select roots policy loaded current = .ok plan) {i : Nat}
    {G : Group} (hG : plan.groups[i]? = some G) (hf : Merge.Failed outcomes i)
    (hs : source ∈ G.sources) (prior : Option Analysis) (fingerprint : Text)
    (hu : later.usable? = some (merge prior plan outcomes fingerprint))
    (hp : now.has source = true) (hn : select roots policy later now = .ok next) :
    (∃ unit, Owns roots (some (merge prior plan outcomes fingerprint)) source unit) ∧
      ∀ unit, Owns roots (some (merge prior plan outcomes fingerprint)) source unit →
        unit ∈ next.units := by
  have hchanged : source ∈ changedSources (merge prior plan outcomes fingerprint) now := by
    have hforgot := not_has_merge_of_failed h hG hf hs prior fingerprint
    have hadded := Changes.mem_added.2 ⟨hp, hforgot⟩
    exact List.mem_append_right _ (Std.ExtTreeSet.mem_toList.2 hadded)
  have hcand := mem_candidates_of_changed next.kind hchanged
  exact ⟨exists_owns hu hn hcand, fun unit ho => mem_units_of_owns hu hn hcand ho⟩

/-- The first of three groups was compiled, the second failed, and the third has no outcome. -/
def firstOfThree : List Outcome :=
  [⟨0, true, [{ name := "A", source := "/p/A.l" }], []⟩, ⟨1, false, [], "syntax error"⟩]

/-- The group of `B` and `C` failed; they are compiled again though their source is unchanged. -/
theorem select_after_failure_fiveUnits : ∃ plan G next,
    select ⟨["/p"], "l"⟩ {} (.ofAnalysis fiveUnits) fiveUnitsEdited = .ok plan ∧
      plan.groups[1]? = some G ∧ Merge.Failed firstOfThree 1 ∧ ("/p/B.l" : Text) ∈ G.sources ∧
      select ⟨["/p"], "l"⟩ {} (.ofAnalysis (merge (some fiveUnits) plan firstOfThree "f"))
        fiveUnitsEdited = .ok next ∧ ("B" : Text) ∈ next.units ∧ ("C" : Text) ∈ next.units := by
  have hc : (select ⟨["/p"], "l"⟩ {} (.ofAnalysis fiveUnits) fiveUnitsEdited).toOption.map
      (fun plan => (plan.groups[1]?.map (·.sources.toList),
        ownUnits ⟨["/p"], "l"⟩ (some (merge (some fiveUnits) plan firstOfThree "f")) "/p/B.l",
        (select ⟨["/p"], "l"⟩ {} (.ofAnalysis (merge (some fiveUnits) plan firstOfThree "f"))
          fiveUnitsEdited).toOption.isSome)) =
      some (some [("/p/B.l" : Text)], [("B" : Text), "C"], true) := by decide +kernel
  obtain ⟨plan, h, he⟩ := exists_plan hc
  simp only [Prod.mk.injEq] at he
  obtain ⟨hgroup, hown, hsome⟩ := he
  obtain ⟨G, hG, hsources⟩ := Option.map_eq_some_iff.1 hgroup
  obtain ⟨next, hnext⟩ := Option.isSome_iff_exists.1 hsome
  have hs : ("/p/B.l" : Text) ∈ G.sources :=
    Std.ExtTreeSet.mem_toList.1 (by rw [hsources]; exact List.mem_cons_self)
  have hf : Merge.Failed firstOfThree 1 := by decide +kernel
  have hn := toOption_eq_some.1 hnext
  obtain ⟨-, hall⟩ :=
    select_after_failure h hG hf hs (some fiveUnits) "f" rfl (by decide +kernel) hn
  refine ⟨plan, G, next, h, hG, hf, hs, hn, hall "B" ?_, hall "C" ?_⟩
  · exact mem_ownUnits.1 (by rw [hown]; simp)
  · exact mem_ownUnits.1 (by rw [hown]; simp)

end Rebuild
