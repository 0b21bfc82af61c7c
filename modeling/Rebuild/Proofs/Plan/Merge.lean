/-
  What a merge leaves in the analysis.

  * `find?_commit` and `getElem?_commit`: a compiled group has the records that were
    reported, and its sources the snapshots of the plan;
  * `Succeeded` and `Failed`: what counts for a group is the last outcome that it has;
  * `Merge.step` merges one group: `find?_step` and `getElem?_step` say what it does to the
    records and to the snapshots, whether the group was compiled or not;
  * `find?_merge_origin` and `find?_merge_of_spares`: a merged record is one that a group
    reports or one from before, and one from before stays if every group spares it;
  * `snapshots_merge`: a path has the snapshot that the last group with it leaves;
  * `getElem?_merge`: when every group was compiled, the snapshots are those of the plan
    for the sources of the groups, and those from before for all others.
-/
import Rebuild.Plan.Merge
import Rebuild.Proofs.Analysis
import Rebuild.Proofs.Containers

namespace Rebuild

namespace Merge

variable {snapshots : Snapshots} {a : Analysis} {g : Group} {records : List UnitRecord}

/-! ## One group -/

theorem find?_note (source n : Text) : (note snapshots a source).find? n = a.find? n := by
  unfold note
  split
  · split <;> rfl
  · rfl

theorem getElem?_note (source p : Text) :
    (note snapshots a source).snapshots[p]? =
      if source = p then (snapshots[p]?).filter Snapshot.present else a.snapshots[p]? := by
  unfold note
  by_cases hp : source = p
  · subst hp
    cases h : snapshots[source]? with
    | none => simp [Analysis.getElem?_forgetSnapshot]
    | some s =>
      cases hs : s.present <;>
        simp [hs, Option.filter, Analysis.getElem?_forgetSnapshot, Analysis.getElem?_recordSnapshot]
  · cases h : snapshots[source]? with
    | none => simp [hp, Analysis.getElem?_forgetSnapshot]
    | some s =>
      cases hs : s.present <;>
        simp [hp, hs, Analysis.getElem?_forgetSnapshot, Analysis.getElem?_recordSnapshot]

theorem find?_foldl_note (sources : List Text) (n : Text) :
    (sources.foldl (note snapshots) a).find? n = a.find? n := by
  induction sources generalizing a with
  | nil => rfl
  | cons s sources ih => rw [List.foldl_cons, ih, find?_note]

theorem getElem?_foldl_note (sources : List Text) (p : Text) :
    (sources.foldl (note snapshots) a).snapshots[p]? =
      if p ∈ sources then (snapshots[p]?).filter Snapshot.present else a.snapshots[p]? :=
  foldl_const (fun (a : Analysis) (p : Text) => a.snapshots[p]?) (note snapshots)
    (fun p => (snapshots[p]?).filter Snapshot.present) (fun _ => getElem?_note) sources a p

/-- The analysis without the units of some sources. -/
def clear (a : Analysis) (sources : List Text) : Analysis :=
  sources.foldl (fun a source => (a.unitsOfSource source).foldl .removeUnit a) a

theorem find?_clear (sources : List Text) (n : Text) (r : UnitRecord) :
    (clear a sources).find? n = some r ↔ a.find? n = some r ∧ r.source ∉ sources := by
  induction sources generalizing a with
  | nil => simp [clear]
  | cons s sources ih =>
    have hmem : n ∈ a.unitsOfSource s ↔ ∃ q, a.find? n = some q ∧ q.source = s :=
      a.mem_unitsOfSource s n
    rw [clear, List.foldl_cons, ← clear, ih, Analysis.find?_foldl_removeUnit, List.mem_cons]
    split
    · next hn =>
      obtain ⟨q, hq, hs⟩ := hmem.1 hn
      constructor
      · rintro ⟨h, -⟩
        cases h
      · rintro ⟨h, hno⟩
        rw [hq] at h
        cases h
        exact absurd (Or.inl hs) hno
    · next hn =>
      refine and_congr_right fun h => ⟨fun hno => ?_, fun hno hm => hno (Or.inr hm)⟩
      rintro (hs | hm)
      · exact hn (hmem.2 ⟨r, h, hs⟩)
      · exact hno hm

theorem snapshots_clear (sources : List Text) : (clear a sources).snapshots = a.snapshots := by
  induction sources generalizing a with
  | nil => rfl
  | cons s sources ih =>
    rw [clear, List.foldl_cons, ← clear, ih, Analysis.snapshots_foldl_removeUnit]

theorem commit_eq : commit snapshots a g records = g.sources.toList.foldl (note snapshots)
    (records.foldl .putUnit (g.units.keys.foldl .removeUnit (clear a g.sources.toList))) := by
  simp only [commit, clear, Std.ExtTreeSet.foldl_eq_foldl_toList]

/-- **The records after a group was compiled**: those that were reported and, under other
    names, those from before of units and sources that are not the group's. -/
theorem find?_commit (n : Text) (r : UnitRecord) :
    (commit snapshots a g records).find? n = some r ↔
      (r.name = n ∧ ∃ earlier later, records = earlier ++ r :: later ∧
          ∀ q ∈ later, q.name ≠ n) ∨
        (∀ q ∈ records, q.name ≠ n) ∧ a.find? n = some r ∧ n ∉ g.units ∧
          r.source ∉ g.sources := by
  rw [commit_eq, find?_foldl_note, Analysis.find?_foldl_putUnit, Analysis.find?_foldl_removeUnit]
  have hk : n ∈ g.units.keys ↔ n ∈ g.units := Std.ExtTreeMap.mem_keys
  refine or_congr_right (and_congr_right fun _ => ?_)
  split
  · next h => simp [hk.1 h]
  · next h =>
    rw [find?_clear, Std.ExtTreeSet.mem_toList]
    exact and_congr_right fun _ => (and_iff_right fun hn => h (hk.2 hn)).symm

/-- **The snapshots after a group was compiled.** -/
theorem getElem?_commit (p : Text) :
    (commit snapshots a g records).snapshots[p]? =
      if p ∈ g.sources then (snapshots[p]?).filter Snapshot.present else a.snapshots[p]? := by
  rw [commit_eq, getElem?_foldl_note, Analysis.snapshots_foldl_putUnit,
    Analysis.snapshots_foldl_removeUnit, snapshots_clear]
  simp only [Std.ExtTreeSet.mem_toList]

/-! ## Outcomes -/

variable {plan : Plan} {outcomes : List Outcome} {i : Nat}

/-- Of several outcomes of a group the last one counts. -/
def LastOutcome (outcomes : List Outcome) (i : Nat) (o : Outcome) : Prop :=
  ∃ earlier later, outcomes = earlier ++ o :: later ∧ o.group = i ∧ ∀ p ∈ later, p.group ≠ i

/-- The last outcome of a group is a success with these records. -/
def Succeeded (outcomes : List Outcome) (i : Nat) (records : List UnitRecord) : Prop :=
  ∃ o, LastOutcome outcomes i o ∧ o.succeeded = true ∧ o.units = records

/-- The last outcome of a group is a failure, or it has none. -/
def Failed (outcomes : List Outcome) (i : Nat) : Prop :=
  ∀ o, LastOutcome outcomes i o → o.succeeded = false

theorem Failed.not_succeeded (h : Failed outcomes i) : ¬ Succeeded outcomes i records := by
  rintro ⟨o, ho, hs, -⟩
  simp [h o ho] at hs

theorem getElem?_byGroup {o : Outcome} :
    (byGroup outcomes)[i]? = some o ↔ LastOutcome outcomes i o := by
  have h := foldl_eq_iff (fun (m : Std.ExtTreeMap Nat Outcome) (i : Nat) => m[i]?)
    (fun m (o : Outcome) => m.insert o.group o) (fun o i => o.group = i) (fun o _ => some o)
    (fun m o i hi => by rw [← hi, Std.ExtTreeMap.getElem?_insert_self])
    (fun m o i hi => by
      rw [Std.ExtTreeMap.getElem?_insert,
        if_neg fun he => hi (Std.LawfulEqCmp.compare_eq_iff_eq.1 he)])
    outcomes ∅ i (some o)
  rw [byGroup, h]
  constructor
  · rintro (⟨earlier, p, later, he, hg, ⟨⟩, hl⟩ | ⟨-, hn⟩)
    · exact ⟨earlier, later, he, hg, hl⟩
    · simp at hn
  · rintro ⟨earlier, later, he, hg, hl⟩
    exact Or.inl ⟨earlier, o, later, he, hg, rfl, hl⟩

theorem committed?_eq_some_iff :
    committed? (byGroup outcomes) i = some records ↔ Succeeded outcomes i records := by
  simp only [Succeeded, ← getElem?_byGroup, committed?]
  cases (byGroup outcomes)[i]? with
  | none => simp
  | some o => by_cases hs : o.succeeded = true <;> simp [hs]

theorem committed?_eq_none_iff : committed? (byGroup outcomes) i = none ↔ Failed outcomes i := by
  simp only [Failed, ← getElem?_byGroup, committed?]
  cases (byGroup outcomes)[i]? with
  | none => simp
  | some o => by_cases hs : o.succeeded = true <;> simp [hs]

instance (outcomes : List Outcome) (i : Nat) : Decidable (Failed outcomes i) :=
  decidable_of_iff ((committed? (byGroup outcomes) i).isNone = true)
    (Option.isNone_iff_eq_none.trans committed?_eq_none_iff)

theorem committed?_eq_some (h : committed? (byGroup outcomes) i = some records) :
    ∃ o ∈ outcomes, o.group = i ∧ o.succeeded = true ∧ o.units = records := by
  obtain ⟨o, ⟨earlier, later, rfl, hg, -⟩, hs, hu⟩ := committed?_eq_some_iff.1 h
  exact ⟨o, by simp, hg, hs, hu⟩

/-! ## All groups -/

/-- The analysis after one more group. -/
def step (plan : Plan) (outcomes : List Outcome) (a : Analysis) (x : Group × Nat) : Analysis :=
  match committed? (byGroup outcomes) x.2 with
  | some records => commit plan.snapshots a x.1 records
  | none => withhold a x.1

theorem merge_eq (prior : Option Analysis) (fingerprint : Text) :
    merge prior plan outcomes fingerprint =
      plan.groups.zipIdx.foldl (step plan outcomes) (start prior plan fingerprint) := rfl

/-- The last outcome of every group is a success. -/
def AllSucceed (plan : Plan) (outcomes : List Outcome) : Prop :=
  ∀ i < plan.groups.length, ∃ o, (byGroup outcomes)[i]? = some o ∧ o.succeeded = true

/-- The groups report only units of their own sources. -/
def OwnReports (plan : Plan) (outcomes : List Outcome) : Prop :=
  ∀ o ∈ outcomes, ∀ G, plan.groups[o.group]? = some G → ∀ r ∈ o.units, r.source ∈ G.sources

instance : Decidable (AllSucceed plan outcomes) :=
  decidable_of_iff
    (∀ i < plan.groups.length, (byGroup outcomes)[i]?.any (·.succeeded) = true)
    (by simp only [AllSucceed, Option.any_eq_true])

instance : Decidable (OwnReports plan outcomes) :=
  decidable_of_iff (∀ o ∈ outcomes, ∀ G ∈ plan.groups[o.group]?, ∀ r ∈ o.units,
    r.source ∈ G.sources) Iff.rfl

theorem AllSucceed.step_eq (h : AllSucceed plan outcomes) {x : Group × Nat}
    (hx : x ∈ plan.groups.zipIdx) : ∃ o ∈ outcomes, o.group = x.2 ∧
      ∀ a, step plan outcomes a x = commit plan.snapshots a x.1 o.units := by
  have hlt : x.2 < plan.groups.length :=
    (List.getElem?_eq_some_iff.1 (List.mem_zipIdx_iff_getElem?.1 hx)).1
  obtain ⟨o, ho, hs⟩ := h x.2 hlt
  have hc : committed? (byGroup outcomes) x.2 = some o.units := by simp [committed?, ho, hs]
  obtain ⟨o', hm, hg, -, hu⟩ := committed?_eq_some hc
  refine ⟨o', hm, hg, fun a => ?_⟩
  rw [step, hc, hu]

/-- What is kept of the prior analysis: nothing when everything is compiled. -/
def base (prior : Option Analysis) (plan : Plan) (fingerprint : Text) : Analysis :=
  match prior, plan.kind with
  | some a, .incremental => a.setFingerprint fingerprint
  | _, _ => .empty fingerprint

theorem base_eq (prior : Option Analysis) (plan : Plan) (fingerprint : Text) :
    (∃ a, prior = some a ∧ plan.kind = .incremental ∧
        base prior plan fingerprint = a.setFingerprint fingerprint) ∨
      (prior = none ∨ plan.kind = .full) ∧ base prior plan fingerprint = .empty fingerprint := by
  unfold base
  cases prior with
  | none => exact Or.inr ⟨Or.inl rfl, rfl⟩
  | some a =>
    cases hk : plan.kind with
    | incremental => exact Or.inl ⟨a, rfl, rfl, rfl⟩
    | full => exact Or.inr ⟨Or.inr rfl, rfl⟩

theorem start_eq (prior : Option Analysis) (plan : Plan) (fingerprint : Text) :
    start prior plan fingerprint = plan.changes.removed.toList.foldl .forgetSnapshot
      (plan.purged.toList.foldl .removeUnit (base prior plan fingerprint)) := by
  simp only [start, Std.ExtTreeSet.foldl_eq_foldl_toList]
  cases prior with
  | none => rfl
  | some a =>
    cases hk : plan.kind <;> simp only [base, hk]

/-! ### The fingerprint -/

theorem fingerprint_note (a : Analysis) (source : Text) :
    (note snapshots a source).fingerprint = a.fingerprint := by
  unfold note
  split
  · split <;> rfl
  · rfl

theorem fingerprint_clear (a : Analysis) (sources : List Text) :
    (clear a sources).fingerprint = a.fingerprint :=
  a.fingerprint_foldl (fun b source =>
    b.fingerprint_foldl Analysis.fingerprint_removeUnit (b.unitsOfSource source)) sources

theorem fingerprint_step (a : Analysis) (x : Group × Nat) :
    (step plan outcomes a x).fingerprint = a.fingerprint := by
  unfold step
  split
  · rw [commit_eq, Analysis.fingerprint_foldl _ fingerprint_note,
      Analysis.fingerprint_foldl _ Analysis.fingerprint_putUnit,
      Analysis.fingerprint_foldl _ Analysis.fingerprint_removeUnit, fingerprint_clear]
  · rw [withhold, Std.ExtTreeSet.foldl_eq_foldl_toList]
    exact Analysis.fingerprint_foldl _ Analysis.fingerprint_forgetSnapshot _

theorem fingerprint_start (prior : Option Analysis) (plan : Plan) (fingerprint : Text) :
    (start prior plan fingerprint).fingerprint = fingerprint := by
  rw [start_eq, Analysis.fingerprint_foldl _ Analysis.fingerprint_forgetSnapshot,
    Analysis.fingerprint_foldl _ Analysis.fingerprint_removeUnit]
  obtain ⟨a, -, -, he⟩ | ⟨-, he⟩ := base_eq prior plan fingerprint <;> rw [he] <;> rfl

/-- A merged analysis has the fingerprint that it was merged under. -/
theorem fingerprint_merge (prior : Option Analysis) (fingerprint : Text) :
    (merge prior plan outcomes fingerprint).fingerprint = fingerprint := by
  rw [merge_eq, Analysis.fingerprint_foldl _ fingerprint_step, fingerprint_start]

/-! ### Where a merge starts -/

/-- The records that a merge starts from. -/
theorem find?_start {prior : Option Analysis} {fingerprint n : Text} {r : UnitRecord} :
    (start prior plan fingerprint).find? n = some r ↔ plan.kind = .incremental ∧
      ∃ a, prior = some a ∧ a.find? n = some r ∧ n ∉ plan.purged := by
  rw [start_eq, Analysis.find?_foldl_forgetSnapshot, Analysis.find?_foldl_removeUnit]
  simp only [Std.ExtTreeSet.mem_toList]
  rcases base_eq prior plan fingerprint with ⟨a, rfl, hk, he⟩ | ⟨hk, he⟩
  · rw [he]
    split <;> simp_all [Analysis.find?, Analysis.setFingerprint]
  · rw [he]
    rcases hk with rfl | hk <;> simp_all [Analysis.find?, Analysis.empty]

/-- The snapshots that a merge starts from. -/
theorem getElem?_start {prior : Option Analysis} {fingerprint p : Text} {s : Snapshot} :
    (start prior plan fingerprint).snapshots[p]? = some s ↔ plan.kind = .incremental ∧
      ∃ a, prior = some a ∧ a.snapshots[p]? = some s ∧ p ∉ plan.changes.removed := by
  rw [start_eq, Analysis.getElem?_foldl_forgetSnapshot, Analysis.snapshots_foldl_removeUnit]
  simp only [Std.ExtTreeSet.mem_toList]
  rcases base_eq prior plan fingerprint with ⟨a, rfl, hk, he⟩ | ⟨hk, he⟩
  · rw [he]
    split <;> simp_all [Analysis.setFingerprint]
  · rw [he]
    rcases hk with rfl | hk <;> simp_all [Analysis.empty]

/-! ## One more group -/

/-- Group `i` reports `r`, and nothing of its name after it. -/
def LastReport (outcomes : List Outcome) (i : Nat) (r : UnitRecord) : Prop :=
  ∃ earlier later, Succeeded outcomes i (earlier ++ r :: later) ∧ ∀ q ∈ later, q.name ≠ r.name

/-- The record `r` of a unit is none that a group replaces or removes. -/
def Spares (outcomes : List Outcome) (x : Group × Nat) (n : Text) (r : UnitRecord) : Prop :=
  ∀ records, Succeeded outcomes x.2 records →
    (∀ q ∈ records, q.name ≠ n) ∧ n ∉ x.1.units ∧ r.source ∉ x.1.sources

/-- **The records after one more group**: the last ones that it reports, and those from
    before that it spares. -/
theorem find?_step {x : Group × Nat} {n : Text} {r : UnitRecord} :
    (step plan outcomes a x).find? n = some r ↔
      (LastReport outcomes x.2 r ∧ r.name = n) ∨ Spares outcomes x n r ∧ a.find? n = some r := by
  unfold step
  split
  · next records hc =>
    have hs := committed?_eq_some_iff.1 hc
    have hu : ∀ others, Succeeded outcomes x.2 others → others = records := fun others ho => by
      have := committed?_eq_some_iff.2 ho
      rw [hc] at this
      exact (Option.some.inj this).symm
    rw [find?_commit]
    constructor
    · rintro (⟨hn, earlier, later, rfl, hl⟩ | ⟨hq, hr, hx⟩)
      · exact Or.inl ⟨⟨earlier, later, hs, fun q hq => hn ▸ hl q hq⟩, hn⟩
      · refine Or.inr ⟨fun others ho => ?_, hr⟩
        rw [hu others ho]
        exact ⟨hq, hx⟩
    · rintro (⟨⟨earlier, later, ho, hl⟩, hn⟩ | ⟨hsp, hr⟩)
      · exact Or.inl ⟨hn, earlier, later, (hu _ ho).symm, fun q hq => hn ▸ hl q hq⟩
      · obtain ⟨hq, hx⟩ := hsp records hs
        exact Or.inr ⟨hq, hr, hx⟩
  · next hc =>
    have hf := committed?_eq_none_iff.1 hc
    rw [withhold, Std.ExtTreeSet.foldl_eq_foldl_toList, Analysis.find?_foldl_forgetSnapshot]
    constructor
    · exact fun hr => Or.inr ⟨fun records hs => absurd hs hf.not_succeeded, hr⟩
    · rintro (⟨⟨earlier, later, hs, -⟩, -⟩ | ⟨-, hr⟩)
      · exact absurd hs hf.not_succeeded
      · exact hr

theorem LastReport.exists_outcome {r : UnitRecord} (h : LastReport outcomes i r) :
    ∃ o ∈ outcomes, o.group = i ∧ r ∈ o.units := by
  obtain ⟨earlier, later, ⟨o, ⟨before, after, he, hg, -⟩, -, ho⟩, -⟩ := h
  exact ⟨o, by simp [he], hg, by simp [ho]⟩

/-- **A record in the merged analysis** is the last one that some group reports of its name,
    or one that the merge starts from. -/
theorem find?_merge_origin {prior : Option Analysis} {fingerprint n : Text} {r : UnitRecord}
    (h : (merge prior plan outcomes fingerprint).find? n = some r) :
    (∃ i G, plan.groups[i]? = some G ∧ LastReport outcomes i r ∧ r.name = n) ∨
      (start prior plan fingerprint).find? n = some r := by
  have hrun : ∀ (xs : List (Group × Nat)) a, (∀ x ∈ xs, x ∈ plan.groups.zipIdx) →
      (xs.foldl (step plan outcomes) a).find? n = some r →
      (∃ i G, plan.groups[i]? = some G ∧ LastReport outcomes i r ∧ r.name = n) ∨
        a.find? n = some r := by
    intro xs
    induction xs with
    | nil => exact fun a _ hr => Or.inr hr
    | cons x xs ih =>
      intro a hxs hr
      rcases ih _ (fun y hy => hxs y (List.mem_cons_of_mem x hy)) hr with hl | hr
      · exact Or.inl hl
      · rcases find?_step.1 hr with hl | ⟨-, hr⟩
        · exact Or.inl ⟨x.2, x.1, List.mem_zipIdx_iff_getElem?.1 (hxs x List.mem_cons_self), hl⟩
        · exact Or.inr hr
  rw [merge_eq] at h
  exact hrun _ _ (fun x hx => hx) h

/-- **A record that the merge starts from** stays if every group spares it. -/
theorem find?_merge_of_spares {prior : Option Analysis} {fingerprint n : Text} {r : UnitRecord}
    (hs : ∀ i G, plan.groups[i]? = some G → Spares outcomes (G, i) n r)
    (hr : (start prior plan fingerprint).find? n = some r) :
    (merge prior plan outcomes fingerprint).find? n = some r := by
  rw [merge_eq]
  refine List.foldlRecOn (motive := fun a : Analysis => a.find? n = some r) _ _ hr ?_
  intro a ha x hx
  exact find?_step.2 (Or.inr ⟨hs x.2 x.1 (List.mem_zipIdx_iff_getElem?.1 hx), ha⟩)

/-- What is recorded of a source of group `i`. -/
def noted (plan : Plan) (outcomes : List Outcome) (i : Nat) (p : Text) : Option Snapshot :=
  if (committed? (byGroup outcomes) i).isSome then (plan.snapshots[p]?).filter Snapshot.present
  else none

theorem Succeeded.noted_eq (h : Succeeded outcomes i records) (p : Text) :
    noted plan outcomes i p = (plan.snapshots[p]?).filter Snapshot.present := by
  rw [noted, committed?_eq_some_iff.2 h]
  rfl

theorem Failed.noted_eq (h : Failed outcomes i) (p : Text) : noted plan outcomes i p = none := by
  rw [noted, committed?_eq_none_iff.2 h]
  rfl

/-- **The snapshots after one more group.** -/
theorem getElem?_step (x : Group × Nat) (p : Text) :
    (step plan outcomes a x).snapshots[p]? =
      if p ∈ x.1.sources then noted plan outcomes x.2 p else a.snapshots[p]? := by
  unfold step noted
  split
  · next records hc => simp only [getElem?_commit, hc, Option.isSome_some, if_true]
  · next hc =>
    simp only [withhold, Std.ExtTreeSet.foldl_eq_foldl_toList,
      Analysis.getElem?_foldl_forgetSnapshot, Std.ExtTreeSet.mem_toList, hc]
    rfl

/-- **The snapshots after a merge**: the last group with a source counts. -/
theorem snapshots_merge (prior : Option Analysis) (plan : Plan) (outcomes : List Outcome)
    (fingerprint p : Text) :
    (∃ i G, plan.groups[i]? = some G ∧ p ∈ G.sources ∧
        (merge prior plan outcomes fingerprint).snapshots[p]? = noted plan outcomes i p) ∨
      (∀ G ∈ plan.groups, p ∉ G.sources) ∧
        (merge prior plan outcomes fingerprint).snapshots[p]? =
          (start prior plan fingerprint).snapshots[p]? := by
  have h := (foldl_eq_iff (fun (a : Analysis) (p : Text) => a.snapshots[p]?) (step plan outcomes)
    (fun x p => p ∈ x.1.sources) (fun x p => noted plan outcomes x.2 p)
    (fun a x p hp => by rw [getElem?_step, if_pos hp])
    (fun a x p hp => by rw [getElem?_step, if_neg hp])
    plan.groups.zipIdx (start prior plan fingerprint) p _).1 rfl
  rw [merge_eq]
  rcases h with ⟨earlier, x, later, he, hp, hn, -⟩ | ⟨hno, hs⟩
  · have hx : x ∈ plan.groups.zipIdx := by rw [he]; simp
    exact Or.inl ⟨x.2, x.1, List.mem_zipIdx_iff_getElem?.1 hx, hp, hn.symm⟩
  · refine Or.inr ⟨fun G hG hp => ?_, hs.symm⟩
    obtain ⟨i, hi⟩ := List.mem_iff_getElem?.1 hG
    exact hno (G, i) (List.mem_zipIdx_iff_getElem?.2 hi) hp

/-! ## All groups compiled -/

/-- **When every group was compiled** the sources of the groups have the snapshots of the
    plan, and all others those that the merge started from. -/
theorem getElem?_merge (hall : AllSucceed plan outcomes) (prior : Option Analysis)
    (fingerprint p : Text) :
    ((∃ G ∈ plan.groups, p ∈ G.sources) → (merge prior plan outcomes fingerprint).snapshots[p]? =
        (plan.snapshots[p]?).filter Snapshot.present) ∧
      ((∀ G ∈ plan.groups, p ∉ G.sources) →
        (merge prior plan outcomes fingerprint).snapshots[p]? =
          (start prior plan fingerprint).snapshots[p]?) := by
  rcases snapshots_merge prior plan outcomes fingerprint p with ⟨i, G, hG, hp, hs⟩ | ⟨hno, hs⟩
  · have hlt : i < plan.groups.length := (List.getElem?_eq_some_iff.1 hG).1
    obtain ⟨o, ho, hsucc⟩ := hall i hlt
    have hs' : Succeeded outcomes i o.units := ⟨o, getElem?_byGroup.1 ho, hsucc, rfl⟩
    exact ⟨fun _ => hs.trans (hs'.noted_eq p),
      fun hno => absurd hp (hno G (List.mem_of_getElem? hG))⟩
  · exact ⟨fun ⟨G, hG, hp⟩ => absurd hp (hno G hG), fun _ => hs⟩

end Merge

end Rebuild
