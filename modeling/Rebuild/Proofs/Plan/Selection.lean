/-
  What a selection returns.

  * `select_eq_ok`: a plan is one to compile everything or what `judge` made of the changes;
  * `judge_incremental` and `fullPlan_eq_ok` give the parts of either kind;
  * `mem_units_iff_reached`: the units of an incremental plan are the live ones that the
    changes reach, and they are found in finitely many rounds.
-/
import Rebuild.Plan.Selection
import Rebuild.Proofs.Plan.Grouping
import Rebuild.Proofs.Plan.Impact

namespace Rebuild

variable {roots : Roots} {policy : Policy} {loaded : LoadOutcome} {current : Snapshots}
  {a : Analysis} {plan : Plan}

/-! ## Incremental plans -/

section
variable (i : Impact) (changes : Changes) (selected : TextSet) (groups : List Group)

@[simp] theorem incrementalPlan_kind :
    (incrementalPlan a i changes current selected groups).kind = .incremental := by
  unfold incrementalPlan
  dsimp only
  split <;> rfl

@[simp] theorem incrementalPlan_changes :
    (incrementalPlan a i changes current selected groups).changes = changes := by
  unfold incrementalPlan
  dsimp only
  split <;> rfl

@[simp] theorem incrementalPlan_groups :
    (incrementalPlan a i changes current selected groups).groups = groups := by
  unfold incrementalPlan
  dsimp only
  split <;> rfl

@[simp] theorem incrementalPlan_units :
    (incrementalPlan a i changes current selected groups).units = selected := by
  unfold incrementalPlan
  dsimp only
  split <;> rfl

@[simp] theorem incrementalPlan_purged :
    (incrementalPlan a i changes current selected groups).purged =
      i.purged.filter fun unit => !i.added.contains unit := by
  unfold incrementalPlan
  dsimp only
  split <;> rfl

@[simp] theorem incrementalPlan_snapshots :
    (incrementalPlan a i changes current selected groups).snapshots = current := by
  unfold incrementalPlan
  dsimp only
  split <;> rfl

@[simp] theorem incrementalPlan_delete :
    (incrementalPlan a i changes current selected groups).delete =
      TextSet.ofTexts (artifactsOf a (selected.toList ++ i.purged.toList)) := by
  unfold incrementalPlan
  dsimp only
  split <;> rfl

end

/-- **An incremental plan** is made of what the changes reach. -/
theorem judge_incremental (h : judge roots policy a current = .ok (.incremental plan)) :
    ∃ removed changed, claims roots (some a) (removedSources a current) = .ok removed ∧
      claims roots (some a) (changedSources a current) = .ok changed ∧
      let i := Impact.ofClaims a removed changed
      let selected := i.selected (i.graph a) a
      plan = incrementalPlan a i (Changes.between a.snapshots current) current selected
        (Grouping.make (i.graph a) selected i.sources) := by
  rw [judge, bind_eq_ok] at h
  obtain ⟨removed, hr, h⟩ := h
  rw [bind_eq_ok] at h
  obtain ⟨changed, hc, h⟩ := h
  dsimp only at h
  split at h
  · cases h
  split at h
  · cases h
  split at h
  · cases h
  · exact ⟨removed, changed, hr, hc, (Verdict.incremental.inj (Except.ok.inj h)).symm⟩

theorem claims_of_judge_eq_ok {v : Verdict} (h : judge roots policy a current = .ok v) :
    (∃ removed, claims roots (some a) (removedSources a current) = .ok removed) ∧
      ∃ changed, claims roots (some a) (changedSources a current) = .ok changed := by
  rw [judge, bind_eq_ok] at h
  obtain ⟨removed, hr, h⟩ := h
  rw [bind_eq_ok] at h
  obtain ⟨changed, hc, -⟩ := h
  exact ⟨⟨removed, hr⟩, changed, hc⟩

theorem claims_of_judge_eq_error {e : RootsError} (h : judge roots policy a current = .error e) :
    claims roots (some a) (removedSources a current) = .error e ∨
      claims roots (some a) (changedSources a current) = .error e := by
  rw [judge, bind_eq_error] at h
  rcases h with hr | ⟨removed, -, h⟩
  · exact Or.inl hr
  rcases bind_eq_error.1 h with hc | ⟨changed, -, h⟩
  · exact Or.inr hc
  dsimp only at h
  split at h
  · cases h
  split at h
  · cases h
  split at h
  · cases h
  · cases h

/-! ## Either kind of plan -/

theorem mem_presentPaths {path : Text} : path ∈ presentPaths current ↔ current.has path = true := by
  rw [presentPaths, Std.ExtTreeMap.mem_keys, mem_iff_exists, Snapshots.has_iff]
  simp only [Std.ExtTreeMap.getElem?_filter', Option.filter_eq_some_iff]

/-- **A plan** is one to compile everything, or was judged from the changes. -/
theorem select_eq_ok (h : select roots policy loaded current = .ok plan) :
    (loaded.usable? = none ∧
      fullPlan roots none current (Selection.staleReason loaded) = .ok plan) ∨
    ∃ a, loaded.usable? = some a ∧ (judge roots policy a current = .ok (.incremental plan) ∨
      ∃ reason, judge roots policy a current = .ok (.giveUp reason) ∧
        fullPlan roots (some a) current reason = .ok plan) := by
  unfold select Selection.make at h
  split at h
  · next hu => exact Or.inl ⟨hu, h⟩
  · next a hu =>
    refine Or.inr ⟨a, hu, ?_⟩
    split at h
    · cases h
    · next hj =>
      cases h
      exact Or.inl hj
    · next reason hj => exact Or.inr ⟨reason, hj, h⟩

/-- **A plan to compile everything** is made of the claims of all sources that are there. -/
theorem fullPlan_eq_ok {prior : Option Analysis} {reason : Text}
    (h : fullPlan roots prior current reason = .ok plan) :
    plan.kind = .full ∧
      plan.changes = Changes.between ((prior.map (·.snapshots)).getD ∅) current ∧
      plan.snapshots = current ∧
      ∃ claimed, claims roots prior (presentPaths current) = .ok claimed ∧
        let sources : TextMap Text := claimed.foldl (fun m c => m.insert c.1 c.2) ∅
        plan.groups = fullGroups prior sources (presentPaths current) ∧
          plan.units = TextSet.ofTexts sources.keys := by
  obtain ⟨claimed, hc, rfl⟩ := map_eq_ok.1 h
  exact ⟨rfl, rfl, rfl, claimed, hc, rfl, rfl⟩

theorem judge_of_incremental (hu : loaded.usable? = some a)
    (h : select roots policy loaded current = .ok plan) (hk : plan.kind = .incremental) :
    judge roots policy a current = .ok (.incremental plan) := by
  have hne : plan.kind ≠ .full := by simp [hk]
  rcases select_eq_ok h with ⟨-, hf⟩ | ⟨b, hb, hj | ⟨reason, -, hf⟩⟩
  · exact absurd (fullPlan_eq_ok hf).1 hne
  · rw [hu] at hb
    cases hb
    exact hj
  · exact absurd (fullPlan_eq_ok hf).1 hne

theorem select_of_unusable (hu : loaded.usable? = none) :
    select roots policy loaded current =
      fullPlan roots none current (Selection.staleReason loaded) := by
  unfold select Selection.make
  rw [hu]

theorem select_of_judge (hu : loaded.usable? = some a)
    (hj : judge roots policy a current = .ok (.incremental plan)) :
    select roots policy loaded current = .ok plan := by
  unfold select Selection.make
  rw [hu]
  dsimp only
  rw [hj]

theorem fullPlan_of_full (hu : loaded.usable? = some a)
    (h : select roots policy loaded current = .ok plan) (hk : plan.kind = .full) :
    ∃ reason, fullPlan roots (some a) current reason = .ok plan := by
  rcases select_eq_ok h with ⟨hn, -⟩ | ⟨b, hb, hj | ⟨reason, -, hf⟩⟩
  · rw [hu] at hn
    cases hn
  · obtain ⟨removed, changed, -, -, hp⟩ := judge_incremental hj
    have := (congrArg Plan.kind hp).trans (incrementalPlan_kind _ _ _ _)
    rw [hk] at this
    cases this
  · rw [hu] at hb
    cases hb
    exact ⟨reason, hf⟩

/-- **An incremental plan** says what a faithful impact comes to. -/
theorem incremental_eq_ok (hu : loaded.usable? = some a)
    (h : select roots policy loaded current = .ok plan) (hk : plan.kind = .incremental) :
    ∃ i : Impact, i.Faithful roots a current ∧
      plan.changes = Changes.between a.snapshots current ∧
      plan.snapshots = current ∧
      plan.units = i.selected (i.graph a) a ∧
      plan.groups = Grouping.make (i.graph a) plan.units i.sources ∧
      plan.purged = i.purged.filter fun unit => !i.added.contains unit := by
  obtain ⟨removed, changed, hr, hc, hp⟩ := judge_incremental (judge_of_incremental hu h hk)
  have hunits : plan.units = _ := (congrArg Plan.units hp).trans (incrementalPlan_units _ _ _ _)
  refine ⟨_, Impact.ofClaims_faithful hr hc, ?_, ?_, hunits, ?_, ?_⟩
  · exact (congrArg Plan.changes hp).trans (incrementalPlan_changes _ _ _ _)
  · exact (congrArg Plan.snapshots hp).trans (incrementalPlan_snapshots _ _ _ _)
  · rw [hunits]
    exact (congrArg Plan.groups hp).trans (incrementalPlan_groups _ _ _ _)
  · exact (congrArg Plan.purged hp).trans (incrementalPlan_purged _ _ _ _)

/-- Either kind of plan keeps what the sources look like. -/
theorem plan_snapshots (h : select roots policy loaded current = .ok plan) :
    plan.snapshots = current := by
  cases hu : loaded.usable? with
  | none =>
    rcases select_eq_ok h with ⟨-, hf⟩ | ⟨b, hb, -⟩
    · exact (fullPlan_eq_ok hf).2.2.1
    · rw [hu] at hb
      cases hb
  | some a =>
    cases hk : plan.kind with
    | incremental =>
      obtain ⟨i, -, -, hs, -⟩ := incremental_eq_ok hu h hk
      exact hs
    | full =>
      obtain ⟨reason, hf⟩ := fullPlan_of_full hu h hk
      exact (fullPlan_eq_ok hf).2.2.1

/-- The source differs from what is recorded. -/
def Differs (prior : Option Analysis) (current : Snapshots) (source : Text) : Prop :=
  let changes := Changes.between ((prior.map (·.snapshots)).getD ∅) current
  source ∈ changes.removed ∨ source ∈ changes.modified ∨ source ∈ changes.added

/-- It is there, or it was. -/
theorem Differs.has {prior : Option Analysis} {source : Text} (h : Differs prior current source) :
    current.has source = true ∨ ∃ a, prior = some a ∧ a.snapshots.has source = true := by
  rcases h with h | h | h
  · cases prior with
    | none => simp [Changes.mem_removed, Snapshots.has] at h
    | some a => exact Or.inr ⟨a, rfl, (Changes.mem_removed.1 h).1⟩
  · exact Or.inl (Changes.has_of_mem_modified h)
  · exact Or.inl (Changes.mem_added.1 h).1

theorem differs_some {source : Text} : Differs (some a) current source ↔
    source ∈ removedSources a current ∨ source ∈ changedSources a current := by
  simp [Differs, removedSources, changedSources]

/-- **Behind a plan** every source that differs from what is recorded has a unit. -/
theorem exists_owns_of_select (h : select roots policy loaded current = .ok plan) {source : Text}
    (hs : Differs loaded.usable? current source) :
    ∃ unit, Owns roots loaded.usable? source unit := by
  rcases select_eq_ok h with ⟨hu, hf⟩ | ⟨a, hu, hj⟩
  · rw [hu] at hs ⊢
    obtain ⟨-, -, -, claimed, hc, -⟩ := fullPlan_eq_ok hf
    have hthere : current.has source = true := hs.has.resolve_right (by simp)
    exact (claims_eq hc).2 source (mem_presentPaths.2 hthere)
  · rw [hu, differs_some] at hs
    rw [hu]
    obtain ⟨v, hv⟩ : ∃ v, judge roots policy a current = .ok v := by
      rcases hj with hj | ⟨reason, hj, -⟩
      exacts [⟨_, hj⟩, ⟨_, hj⟩]
    obtain ⟨⟨removed, hr⟩, changed, hc⟩ := claims_of_judge_eq_ok hv
    rcases hs with hs | hs
    · exact (claims_eq hr).2 source hs
    · exact (claims_eq hc).2 source hs

/-- **Selecting fails** at a source that is there, or was, and has no unit. -/
theorem exists_of_select_eq_error {e : RootsError}
    (h : select roots policy loaded current = .error e) :
    ∃ source, (∀ unit, ¬ Recorded loaded.usable? source unit) ∧ roots.unitName source = .error e ∧
      (current.has source = true ∨
        ∃ a, loaded.usable? = some a ∧ a.snapshots.has source = true) := by
  have hfull {prior : Option Analysis} {reason : Text}
      (h : fullPlan roots prior current reason = .error e) :
      ∃ source, (∀ unit, ¬ Recorded prior source unit) ∧ roots.unitName source = .error e ∧
        current.has source = true := by
    obtain ⟨source, hs, hr, hn⟩ := exists_of_claims_eq_error (map_eq_error.1 h)
    exact ⟨source, hr, hn, mem_presentPaths.1 hs⟩
  unfold select Selection.make at h
  split at h
  · next hu =>
    obtain ⟨source, hr, hn, hs⟩ := hfull h
    exact ⟨source, hu ▸ hr, hn, Or.inl hs⟩
  · next a hu =>
    rw [hu]
    split at h
    · next hj =>
      cases h
      rcases claims_of_judge_eq_error hj with hc | hc
      · obtain ⟨source, hs, hr, hn⟩ := exists_of_claims_eq_error hc
        rw [removedSources, Std.ExtTreeSet.mem_toList, Changes.mem_removed] at hs
        exact ⟨source, hr, hn, Or.inr ⟨a, rfl, hs.1⟩⟩
      · obtain ⟨source, hs, hr, hn⟩ := exists_of_claims_eq_error hc
        exact ⟨source, hr, hn, Or.inl (has_of_mem_changedSources hs)⟩
    · cases h
    · obtain ⟨source, hr, hn, hs⟩ := hfull h
      exact ⟨source, hr, hn, Or.inl hs⟩

/-! ## What is selected -/

theorem mem_units_iff (hu : loaded.usable? = some a)
    (h : select roots policy loaded current = .ok plan) (hk : plan.kind = .incremental)
    {unit : Text} :
    unit ∈ plan.units ↔ Live roots a current unit ∧ Reached roots a current unit := by
  obtain ⟨i, hi, -, -, hunits, -⟩ := incremental_eq_ok hu h hk
  rw [hunits]
  exact Impact.mem_selected hi

theorem mem_units_of_produced (hu : loaded.usable? = some a)
    (h : select roots policy loaded current = .ok plan) (hk : plan.kind = .incremental)
    {unit : Text} (hp : Produced roots a current unit) : unit ∈ plan.units := by
  have hlive : Live roots a current unit := Or.inl hp
  obtain ⟨source, hs, ho⟩ := hp
  exact (mem_units_iff hu h hk).2 ⟨hlive, .seed (Or.inr hs) ho⟩

/-- The recorded units that an incremental plan forgets. -/
theorem mem_purged_iff (hu : loaded.usable? = some a)
    (h : select roots policy loaded current = .ok plan) (hk : plan.kind = .incremental)
    {unit : Text} :
    unit ∈ plan.purged ↔ Purged roots a current unit ∧ ¬ Produced roots a current unit := by
  obtain ⟨i, hi, -, -, -, -, hpurged⟩ := incremental_eq_ok hu h hk
  have hadded : i.added.contains unit = true ↔ unit ∈ i.added := Std.ExtTreeSet.contains_iff_mem
  simp only [hpurged, Std.ExtTreeSet.mem_filter, Std.ExtTreeSet.get_eq, exists_prop,
    Bool.not_eq_true', ← Bool.not_eq_true, hadded, hi.mem_purged, hi.mem_added]
  tauto

/-- A recorded unit that is not forgotten exists after the build. -/
theorem live_of_notMem_purged (hu : loaded.usable? = some a)
    (h : select roots policy loaded current = .ok plan) (hk : plan.kind = .incremental)
    {unit : Text} (hr : ∃ r, a.find? unit = some r) (hm : unit ∉ plan.purged) :
    Live roots a current unit := by
  by_cases hp : Produced roots a current unit
  · exact Or.inl hp
  · have hno : ¬ Purged roots a current unit := fun hpurged =>
      hm ((mem_purged_iff hu h hk).2 ⟨hpurged, hp⟩)
    exact Or.inr ⟨hr, hno⟩

theorem mem_units_of_full (hu : loaded.usable? = some a)
    (h : select roots policy loaded current = .ok plan) (hk : plan.kind = .full) {unit : Text} :
    unit ∈ plan.units ↔ ∃ source ∈ presentPaths current, Owns roots (some a) source unit := by
  obtain ⟨reason, hf⟩ := fullPlan_of_full hu h hk
  obtain ⟨-, -, -, claimed, hc, -, hunits⟩ := fullPlan_eq_ok hf
  rw [hunits, mem_ofTexts, Std.ExtTreeMap.mem_keys, mem_foldl_insert, ← mem_map_claims hc]
  simp

theorem mem_purged_of_full (hu : loaded.usable? = some a)
    (h : select roots policy loaded current = .ok plan) (hk : plan.kind = .full) {unit : Text} :
    unit ∈ plan.purged ↔ (∃ r, a.find? unit = some r) ∧ unit ∉ plan.units := by
  obtain ⟨reason, hf⟩ := fullPlan_of_full hu h hk
  obtain ⟨claimed, -, rfl⟩ := map_eq_ok.1 hf
  have hnames : unit ∈ a.unitNames ↔ ∃ r, a.find? unit = some r := by
    rw [Analysis.unitNames, Std.ExtTreeMap.mem_keys, mem_iff_exists]
    rfl
  clear h hk hf
  generalize (claimed.foldl (fun m c => m.insert c.1 c.2) ∅ : TextMap Text) = sources
  simp only [Option.map_some, Option.getD_some, mem_ofTexts, List.mem_filter, hnames,
    Bool.not_eq_true', ← Bool.not_eq_true, Std.ExtTreeMap.contains_iff_mem,
    Std.ExtTreeMap.mem_keys]

theorem notMem_purged_of_mem_units (hu : loaded.usable? = some a)
    (h : select roots policy loaded current = .ok plan) {unit : Text} (hm : unit ∈ plan.units) :
    unit ∉ plan.purged := by
  intro hp
  cases hk : plan.kind with
  | incremental =>
    obtain ⟨hpurged, hno⟩ := (mem_purged_iff hu h hk).1 hp
    obtain ⟨hproduced | ⟨-, hnp⟩, -⟩ := (mem_units_iff hu h hk).1 hm
    · exact hno hproduced
    · exact hnp hpurged
  | full => exact ((mem_purged_of_full hu h hk).1 hp).2 hm

/-- **An incremental plan compiles exactly the live units that the changes reach**, and
    they are found in no more rounds than there are recorded units. -/
theorem mem_units_iff_reached (hu : loaded.usable? = some a)
    (h : select roots policy loaded current = .ok plan) (hk : plan.kind = .incremental) :
    (∀ unit, unit ∈ plan.units ↔ Live roots a current unit ∧ Reached roots a current unit) ∧
      ∃ removed changed, claims roots (some a) (removedSources a current) = .ok removed ∧
        claims roots (some a) (changedSources a current) = .ok changed ∧
        let i := Impact.ofClaims a removed changed
        let g := i.graph a
        ∃ n ≤ a.unitCount, Impact.followers a i ((Impact.round g a i)^[n] (g.closure i.seeds)) = [] ∧
          plan.units = ((Impact.round g a i)^[n] (g.closure i.seeds)).filter i.live := by
  obtain ⟨removed, changed, hr, hc, hp⟩ := judge_incremental (judge_of_incremental hu h hk)
  have hi := Impact.ofClaims_faithful hr hc
  have hunits : plan.units = _ := (congrArg Plan.units hp).trans (incrementalPlan_units _ _ _ _)
  refine ⟨fun unit => ?_, removed, changed, hr, hc, ?_⟩
  · rw [hunits]
    exact Impact.mem_selected hi
  · obtain ⟨n, hn, he, hf⟩ := Impact.exists_rounds (Impact.graph a (Impact.ofClaims a removed changed))
      a (Impact.ofClaims a removed changed) _
    refine ⟨n, Nat.le_trans hn (Impact.length_unreached_le a _), hf, ?_⟩
    rw [hunits, Impact.selected, he]

/-- A plan from what can be computed of it. -/
theorem exists_plan {α : Type} {f : Plan → α} {x : α}
    (h : (select roots policy loaded current).toOption.map f = some x) :
    ∃ plan, select roots policy loaded current = .ok plan ∧ f plan = x := by
  obtain ⟨plan, hp, hx⟩ := Option.map_eq_some_iff.1 h
  exact ⟨plan, toOption_eq_some.1 hp, hx⟩

/-- Five units in four sources: `B` depends on `A` and shares its source with `C`, `D`
    depends on every unit, and `E` on none. -/
def fiveUnits : Analysis :=
  let records : List UnitRecord :=
    [{ name := "A", source := "/p/A.l" },
      { name := "B", source := "/p/B.l", dependencies := TextSet.ofTexts ["A"] },
      { name := "C", source := "/p/B.l" },
      { name := "D", source := "/p/D.l", dependencies := TextSet.ofTexts [wildcard] },
      { name := "E", source := "/p/E.l" }]
  records.foldl (fun a r => (a.putUnit r).recordSnapshot r.source { kind := .file, modified := 1 })
    (.empty "f")

/-- The source of `A` was edited. -/
def fiveUnitsEdited : Snapshots :=
  fiveUnits.snapshots.insert "/p/A.l" { kind := .file, modified := 2 }

theorem mem_units_iff_reached_fiveUnits : ∃ plan,
    select ⟨["/p"], "l"⟩ {} (.ofAnalysis fiveUnits) fiveUnitsEdited = .ok plan ∧
      plan.kind = .incremental ∧ ∀ unit, unit ∈ plan.units ↔
        Live ⟨["/p"], "l"⟩ fiveUnits fiveUnitsEdited unit ∧
          Reached ⟨["/p"], "l"⟩ fiveUnits fiveUnitsEdited unit := by
  have hkind : (select ⟨["/p"], "l"⟩ {} (.ofAnalysis fiveUnits) fiveUnitsEdited).toOption.map
      (·.kind) = some .incremental := by decide +kernel
  obtain ⟨plan, h, hk⟩ := exists_plan hkind
  exact ⟨plan, h, hk, (mem_units_iff_reached rfl h hk).1⟩

end Rebuild
