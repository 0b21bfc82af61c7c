/-
  What groups do to each other in a merge: nothing.

  * `Confined` says what the groups may report: units of their own sources, under names
    that no other group has or reports and that no record outside the plan has;
  * `find?_merge`: under it a record in the merged analysis is the last one that some group
    reports of its name, or an earlier one that every group spares;
  * `Exact` says of every unit and source what becomes of it, and `merge_exact` that it does
    whichever of the groups succeed.
-/
import Rebuild.Proofs.Plan.Retry

namespace Rebuild

namespace Merge

variable {roots : Roots} {policy : Policy} {loaded : LoadOutcome} {current : Snapshots}
  {a : Analysis} {plan : Plan} {outcomes : List Outcome} {i j : Nat} {G H : Group}
  {n source : Text} {r : UnitRecord}

/-! ## Reports -/

/-- What the groups that succeeded report, with their numbers. -/
def reports (plan : Plan) (outcomes : List Outcome) : List (Nat × UnitRecord) :=
  (List.range plan.groups.length).flatMap fun i =>
    ((committed? (byGroup outcomes) i).getD []).map fun r => (i, r)

theorem mem_reports : (i, r) ∈ reports plan outcomes ↔
    i < plan.groups.length ∧ ∃ records, Succeeded outcomes i records ∧ r ∈ records := by
  simp only [reports, List.mem_flatMap, List.mem_range, List.mem_map, Prod.mk.injEq,
    ← committed?_eq_some_iff]
  constructor
  · rintro ⟨k, hk, q, hq, rfl, rfl⟩
    cases hc : committed? (byGroup outcomes) k with
    | none => simp [hc] at hq
    | some records =>
      rw [hc] at hq
      exact ⟨hk, records, rfl, hq⟩
  · rintro ⟨hi, records, hc, hr⟩
    exact ⟨i, hi, r, by rwa [hc], rfl, rfl⟩

theorem LastReport.mem_reports (hl : LastReport outcomes i r) (hi : i < plan.groups.length) :
    (i, r) ∈ reports plan outcomes := by
  obtain ⟨earlier, later, hs, -⟩ := hl
  exact Merge.mem_reports.2 ⟨hi, _, hs, by simp⟩

/-- No group reports a unit of this name. -/
def Unreported (plan : Plan) (outcomes : List Outcome) (n : Text) : Prop :=
  ∀ c ∈ reports plan outcomes, c.2.name ≠ n

/-- The groups keep to themselves in what they report. -/
structure Confined (a : Analysis) (plan : Plan) (outcomes : List Outcome) : Prop where
  source_mem : ∀ c ∈ reports plan outcomes, ∀ G, plan.groups[c.1]? = some G → c.2.source ∈ G.sources
  unit_mem : ∀ c ∈ reports plan outcomes, ∀ j H, plan.groups[j]? = some H →
    c.2.name ∈ H.units → j = c.1
  name_inj : ∀ c ∈ reports plan outcomes, ∀ d ∈ reports plan outcomes,
    c.2.name = d.2.name → c.1 = d.1
  /-- A recorded name is one of the plan. -/
  known : ∀ c ∈ reports plan outcomes, (∃ r, a.find? c.2.name = some r) →
    c.2.name ∈ plan.units ∨ c.2.name ∈ plan.purged

instance : Decidable (Confined a plan outcomes) :=
  decidable_of_iff
    ((∀ c ∈ reports plan outcomes, ∀ G ∈ plan.groups[c.1]?, c.2.source ∈ G.sources) ∧
      (∀ c ∈ reports plan outcomes, ∀ x ∈ plan.groups.zipIdx, c.2.name ∈ x.1.units → x.2 = c.1) ∧
      (∀ c ∈ reports plan outcomes, ∀ d ∈ reports plan outcomes,
        c.2.name = d.2.name → c.1 = d.1) ∧
      ∀ c ∈ reports plan outcomes, (a.find? c.2.name).isSome = true →
        c.2.name ∈ plan.units ∨ c.2.name ∈ plan.purged) <| by
    simp only [Option.isSome_iff_exists]
    constructor
    · rintro ⟨hs, hu, hn, hk⟩
      exact ⟨hs, fun c hc j H hH => hu c hc (H, j) (List.mem_zipIdx_iff_getElem?.2 hH), hn, hk⟩
    · rintro ⟨hs, hu, hn, hk⟩
      exact ⟨hs, fun c hc x hx => hu c hc x.2 x.1 (List.mem_zipIdx_iff_getElem?.1 hx), hn, hk⟩

/-! ## All groups -/

/-- **The records after some groups**, when none touches what one before it reports. -/
theorem find?_foldl_step {xs : List (Group × Nat)}
    (hxs : xs.Pairwise fun x y => ∀ r, LastReport outcomes x.2 r → Spares outcomes y r.name r) :
    (xs.foldl (step plan outcomes) a).find? n = some r ↔
      (∃ x ∈ xs, LastReport outcomes x.2 r ∧ r.name = n) ∨
        (∀ x ∈ xs, Spares outcomes x n r) ∧ a.find? n = some r := by
  induction xs generalizing a with
  | nil => simp
  | cons x xs ih =>
    obtain ⟨hx, hxs⟩ := List.pairwise_cons.1 hxs
    rw [List.foldl_cons, ih hxs, find?_step]
    constructor
    · rintro (⟨y, hy, hl⟩ | ⟨hall, hl | ⟨hs, hr⟩⟩)
      · exact Or.inl ⟨y, List.mem_cons_of_mem x hy, hl⟩
      · exact Or.inl ⟨x, List.mem_cons_self, hl⟩
      · exact Or.inr ⟨List.forall_mem_cons.2 ⟨hs, hall⟩, hr⟩
    · rintro (⟨y, hy, hl, hn⟩ | ⟨hall, hr⟩)
      · rcases List.mem_cons.1 hy with rfl | hy
        · -- all groups after the one that reports `r` spare it
          exact Or.inr ⟨fun z hz => hn ▸ hx z hz r hl, Or.inl ⟨hl, hn⟩⟩
        · exact Or.inl ⟨y, hy, hl, hn⟩
      · obtain ⟨hs, hall⟩ := List.forall_mem_cons.1 hall
        exact Or.inr ⟨hall, Or.inr ⟨hs, hr⟩⟩

section
variable (h : select roots policy loaded current = .ok plan) (hc : Confined a plan outcomes)
include h hc

/-- A group spares what another one reports. -/
theorem Confined.spares (hG : plan.groups[i]? = some G) (hH : plan.groups[j]? = some H)
    (hij : i ≠ j) (hl : LastReport outcomes i r) : Spares outcomes (H, j) r.name r := by
  have hi : i < plan.groups.length := (List.getElem?_eq_some_iff.1 hG).1
  have hj : j < plan.groups.length := (List.getElem?_eq_some_iff.1 hH).1
  have hm : (i, r) ∈ reports plan outcomes := hl.mem_reports hi
  intro records hs
  refine ⟨?_, ?_, ?_⟩
  · intro q hq hn
    have hmq : (j, q) ∈ reports plan outcomes := mem_reports.2 ⟨hj, records, hs, hq⟩
    exact hij (hc.name_inj _ hmq _ hm hn).symm
  · intro hu
    exact hij (hc.unit_mem _ hm j H hH hu).symm
  · intro hsrc
    exact hij (eq_of_mem_group_sources h hG hH (hc.source_mem _ hm G hG) hsrc)

/-- **The records after a merge**: the last ones that the groups report, and those from the
    start that all of them spare. -/
theorem Confined.find?_merge {prior : Option Analysis} {fingerprint : Text} :
    (merge prior plan outcomes fingerprint).find? n = some r ↔
      (∃ i < plan.groups.length, LastReport outcomes i r ∧ r.name = n) ∨
        (∀ i G, plan.groups[i]? = some G → Spares outcomes (G, i) n r) ∧
          (start prior plan fingerprint).find? n = some r := by
  have hxs : plan.groups.zipIdx.Pairwise fun x y =>
      ∀ r, LastReport outcomes x.2 r → Spares outcomes y r.name r := by
    rw [List.pairwise_iff_getElem]
    intro i j hi hj hij r hl
    simp only [List.getElem_zipIdx, Nat.zero_add] at hl ⊢
    rw [List.length_zipIdx] at hi hj
    exact hc.spares h (List.getElem?_eq_getElem hi) (List.getElem?_eq_getElem hj)
      (Nat.ne_of_lt hij) hl
  rw [merge_eq, find?_foldl_step hxs]
  refine or_congr ⟨?_, ?_⟩ (and_congr_left' ⟨?_, ?_⟩)
  · rintro ⟨x, hx, hl⟩
    exact ⟨x.2, (List.getElem?_eq_some_iff.1 (List.mem_zipIdx_iff_getElem?.1 hx)).1, hl⟩
  · rintro ⟨i, hi, hl⟩
    exact ⟨(plan.groups[i], i),
      List.mem_zipIdx_iff_getElem?.2 (List.getElem?_eq_getElem hi), hl⟩
  · exact fun hall i G hG => hall (G, i) (List.mem_zipIdx_iff_getElem?.2 hG)
  · exact fun hall x hx => hall x.2 x.1 (List.mem_zipIdx_iff_getElem?.1 hx)

end

/-! ## One unit, one source -/

/-- What a merge does to every unit and every source.

    Units that are neither compiled nor purged are untouched.  A group that did not succeed
    keeps the records of its units and forgets what its sources look like.  A group that
    succeeded has what it reports in place of its units and of those of its sources. -/
structure Exact (a : Analysis) (plan : Plan) (outcomes : List Outcome) (merged : Analysis) :
    Prop where
  untouched : ∀ n r, a.find? n = some r → n ∉ plan.units → n ∉ plan.purged →
    merged.find? n = some r
  withheld : ∀ i G n, plan.groups[i]? = some G → Failed outcomes i → n ∈ G.units →
    (∀ r, a.find? n = some r → r.source ∈ G.sources) → merged.find? n = a.find? n
  reported : ∀ i r, i < plan.groups.length → LastReport outcomes i r →
    merged.find? r.name = some r
  replaced : ∀ i G records n, plan.groups[i]? = some G → Succeeded outcomes i records →
    (n ∈ G.units ∨ ∃ r, a.find? n = some r ∧ r.source ∈ G.sources) →
      Unreported plan outcomes n → merged.find? n = none
  purged : ∀ n ∈ plan.purged, Unreported plan outcomes n → merged.find? n = none
  origin : ∀ n r, merged.find? n = some r →
    (∃ i < plan.groups.length, LastReport outcomes i r) ∨ a.find? n = some r
  compiled : ∀ i G records, plan.groups[i]? = some G → Succeeded outcomes i records →
    ∀ p ∈ G.sources, merged.snapshots[p]? = (plan.snapshots[p]?).filter Snapshot.present
  forgotten : ∀ i G, plan.groups[i]? = some G → Failed outcomes i →
    ∀ p ∈ G.sources, merged.snapshots[p]? = none
  removed : ∀ p ∈ plan.changes.removed, merged.snapshots[p]? = none
  kept : ∀ p, (∀ G ∈ plan.groups, p ∉ G.sources) → p ∉ plan.changes.removed →
    merged.snapshots[p]? = a.snapshots[p]?

/-- **A group spares the units outside the plan** that it does not report. -/
theorem spares_of_untouched (hu : loaded.usable? = some a)
    (h : select roots policy loaded current = .ok plan) (hk : plan.kind = .incremental)
    (hG : plan.groups[i]? = some G) (hr : a.find? n = some r) (hn : n ∉ plan.units)
    (hp : n ∉ plan.purged)
    (hno : ∀ records, Succeeded outcomes i records → ∀ q ∈ records, q.name ≠ n) :
    Spares outcomes (G, i) n r := by
  have hm : G ∈ plan.groups := List.mem_of_getElem? hG
  intro records hs
  refine ⟨hno records hs, ?_, ?_⟩
  · intro hunit
    exact hn (mem_units_of_mem_group hu h hm hunit)
  · intro hsrc
    exact (mem_units_or_mem_purged hu h hk hm hr hsrc).elim hn hp

section
variable (hu : loaded.usable? = some a) (h : select roots policy loaded current = .ok plan)
  (hk : plan.kind = .incremental) (hc : Confined a plan outcomes) (fingerprint : Text)
include hu h hk hc

theorem find?_merge_of_untouched (hr : a.find? n = some r) (hn : n ∉ plan.units)
    (hp : n ∉ plan.purged) : (merge (some a) plan outcomes fingerprint).find? n = some r := by
  refine find?_merge_of_spares (fun i G hG => ?_) (find?_start.2 ⟨hk, a, rfl, hr, hp⟩)
  refine spares_of_untouched hu h hk hG hr hn hp ?_
  rintro records hs q hq rfl
  have hi : i < plan.groups.length := (List.getElem?_eq_some_iff.1 hG).1
  have hrep : (i, q) ∈ reports plan outcomes := mem_reports.2 ⟨hi, records, hs, hq⟩
  exact (hc.known _ hrep ⟨r, hr⟩).elim hn hp

theorem find?_merge_of_failed (hG : plan.groups[i]? = some G) (hf : Failed outcomes i)
    (hn : n ∈ G.units) (hsrc : ∀ r, a.find? n = some r → r.source ∈ G.sources) :
    (merge (some a) plan outcomes fingerprint).find? n = a.find? n := by
  have hm : n ∈ plan.units := mem_units_of_mem_group hu h (List.mem_of_getElem? hG) hn
  have hp : n ∉ plan.purged := notMem_purged_of_mem_units hu h hm
  apply Option.ext
  intro r
  rw [hc.find?_merge h]
  constructor
  · rintro (⟨j, hj, hl, rfl⟩ | ⟨-, hr⟩)
    · -- only the group of a unit may report it, and this one failed
      obtain rfl := hc.unit_mem _ (hl.mem_reports hj) i G hG hn
      obtain ⟨_, _, hs, -⟩ := hl
      exact absurd hs hf.not_succeeded
    · obtain ⟨-, b, ⟨⟩, hr, -⟩ := find?_start.1 hr
      exact hr
  · intro hr
    refine Or.inr ⟨?_, find?_start.2 ⟨hk, a, rfl, hr, hp⟩⟩
    intro j H hH records hs
    have hj : j < plan.groups.length := (List.getElem?_eq_some_iff.1 hH).1
    have hij : i ≠ j := by
      rintro rfl
      exact hf.not_succeeded hs
    refine ⟨?_, ?_, ?_⟩
    · rintro q hq rfl
      exact hij (hc.unit_mem _ (mem_reports.2 ⟨hj, records, hs, hq⟩) i G hG hn)
    · intro hunit
      exact hij (eq_of_mem_group_units h hG hH hn hunit)
    · intro hm
      exact hij (eq_of_mem_group_sources h hG hH (hsrc r hr) hm)

end

section
variable (h : select roots policy loaded current = .ok plan) (hc : Confined a plan outcomes)
  (hno : Unreported plan outcomes n) (fingerprint : Text)
include h hc hno

/-- A unit that is not reported has no record other than one that every group spares. -/
theorem find?_merge_of_unreported (hr : (merge (some a) plan outcomes fingerprint).find? n = some r) :
    (∀ i G, plan.groups[i]? = some G → Spares outcomes (G, i) n r) ∧
      a.find? n = some r ∧ n ∉ plan.purged := by
  rcases (hc.find?_merge h).1 hr with ⟨j, hj, hl, hname⟩ | ⟨hall, hr⟩
  · exact absurd hname (hno _ (hl.mem_reports hj))
  · obtain ⟨-, b, ⟨⟩, hr, hp⟩ := find?_start.1 hr
    exact ⟨hall, hr, hp⟩

theorem find?_merge_of_replaced {records : List UnitRecord} (hG : plan.groups[i]? = some G)
    (hs : Succeeded outcomes i records)
    (hn : n ∈ G.units ∨ ∃ r, a.find? n = some r ∧ r.source ∈ G.sources) :
    (merge (some a) plan outcomes fingerprint).find? n = none := by
  rw [Option.eq_none_iff_forall_ne_some]
  intro r hr
  obtain ⟨hall, hprior, -⟩ := find?_merge_of_unreported h hc hno fingerprint hr
  obtain ⟨-, hunit, hsrc⟩ := hall i G hG records hs
  rcases hn with hn | ⟨q, hq, hn⟩
  · exact hunit hn
  · rw [hprior] at hq
    cases hq
    exact hsrc hn

theorem find?_merge_of_purged (hp : n ∈ plan.purged) :
    (merge (some a) plan outcomes fingerprint).find? n = none := by
  rw [Option.eq_none_iff_forall_ne_some]
  intro r hr
  exact (find?_merge_of_unreported h hc hno fingerprint hr).2.2 hp

end

/-- No group records what was removed. -/
theorem snapshots_merge_of_removed (hu : loaded.usable? = some a)
    (h : select roots policy loaded current = .ok plan) (hp : source ∈ plan.changes.removed)
    (outcomes : List Outcome) (fingerprint : Text) :
    (merge (some a) plan outcomes fingerprint).snapshots[source]? = none := by
  rcases snapshots_merge (some a) plan outcomes fingerprint source with
    ⟨i, G, -, -, hm⟩ | ⟨-, hm⟩
  · rw [hm, noted, plan_snapshots h]
    split
    · rw [plan_changes h, hu] at hp
      obtain ⟨-, hgone⟩ := Changes.mem_removed.1 hp
      rw [Option.filter_eq_none_iff]
      intro s hs hpresent
      exact hgone (Snapshots.has_iff.2 ⟨s, hs, hpresent⟩)
    · rfl
  · rw [hm, Option.eq_none_iff_forall_ne_some]
    intro s hs
    obtain ⟨-, _, -, -, hnr⟩ := getElem?_start.1 hs
    exact hnr hp

theorem snapshots_merge_of_kept (hk : plan.kind = .incremental)
    (hno : ∀ G ∈ plan.groups, source ∉ G.sources) (hnr : source ∉ plan.changes.removed)
    (outcomes : List Outcome) (fingerprint : Text) :
    (merge (some a) plan outcomes fingerprint).snapshots[source]? = a.snapshots[source]? := by
  rcases snapshots_merge (some a) plan outcomes fingerprint source with
    ⟨i, G, hG, hm, -⟩ | ⟨-, hm⟩
  · exact absurd hm (hno G (List.mem_of_getElem? hG))
  · rw [hm]
    apply Option.ext
    intro s
    rw [getElem?_start]
    constructor
    · rintro ⟨-, b, ⟨⟩, hs, -⟩
      exact hs
    · intro hs
      exact ⟨hk, a, rfl, hs, hnr⟩

/-- **A merge is exact**, whichever of the groups succeed, when they keep to themselves. -/
theorem merge_exact (hu : loaded.usable? = some a)
    (h : select roots policy loaded current = .ok plan) (hk : plan.kind = .incremental)
    (hc : Confined a plan outcomes) (fingerprint : Text) :
    Exact a plan outcomes (merge (some a) plan outcomes fingerprint) where
  untouched n r hr hn hp := find?_merge_of_untouched hu h hk hc fingerprint hr hn hp
  withheld i G n hG hf hn hsrc := find?_merge_of_failed hu h hk hc fingerprint hG hf hn hsrc
  reported i r hi hl := (hc.find?_merge h).2 (Or.inl ⟨i, hi, hl, rfl⟩)
  replaced i G records n hG hs hn hno := find?_merge_of_replaced h hc hno fingerprint hG hs hn
  purged n hp hno := find?_merge_of_purged h hc hno fingerprint hp
  origin n r hr := by
    rcases (hc.find?_merge h).1 hr with ⟨i, hi, hl, -⟩ | ⟨-, hr⟩
    · exact Or.inl ⟨i, hi, hl⟩
    · obtain ⟨-, b, ⟨⟩, hr, -⟩ := find?_start.1 hr
      exact Or.inr hr
  compiled i G records hG hs p hp := by
    rw [snapshots_merge_of_mem h hG hp, hs.noted_eq]
  forgotten i G hG hf p hp := by
    rw [snapshots_merge_of_mem h hG hp, hf.noted_eq]
  removed p hp := snapshots_merge_of_removed hu h hp outcomes fingerprint
  kept p hno hnr := snapshots_merge_of_kept hk hno hnr outcomes fingerprint

theorem merge_exact_fiveUnits : ∃ plan,
    select ⟨["/p"], "l"⟩ {} (.ofAnalysis fiveUnits) fiveUnitsEdited = .ok plan ∧
      plan.kind = .incremental ∧ Confined fiveUnits plan firstOfThree ∧
      Exact fiveUnits plan firstOfThree (merge (some fiveUnits) plan firstOfThree "f") := by
  have hd : (select ⟨["/p"], "l"⟩ {} (.ofAnalysis fiveUnits) fiveUnitsEdited).toOption.map
      (fun plan => (plan.kind, decide (Confined fiveUnits plan firstOfThree))) =
      some (PlanKind.incremental, true) := by decide +kernel
  obtain ⟨plan, h, he⟩ := exists_plan hd
  simp only [Prod.mk.injEq, decide_eq_true_eq] at he
  obtain ⟨hk, hc⟩ := he
  exact ⟨plan, h, hk, hc, merge_exact rfl h hk hc "f"⟩

end Merge

end Rebuild
