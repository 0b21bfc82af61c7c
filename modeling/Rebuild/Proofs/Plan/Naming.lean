/-
  Where selecting can fail.

  * `Session.Runs`: a session with what the sources looked like in each of its steps;
  * `Discovered` snapshots are those of the sources that are found in some file tree;
  * `Session.Runs.exists_seen`: what is recorded was seen in some step;
  * `Session.select_discovered`: with discovered sources selecting fails only at a source that
    is a root as well.
-/
import Rebuild.Proofs.Machine.Discovery
import Rebuild.Proofs.Plan.Deletion

namespace Rebuild

variable {loaded : LoadOutcome} {current : Snapshots}

/-- The snapshots are those of the sources that are found in some tree. -/
def Discovered (roots : Roots) (current : Snapshots) : Prop :=
  ∃ t : FileTree, t.Normal ∧ current.keys = (t.sources roots).1

theorem Discovered.below {roots : Roots} (h : Discovered roots current) {source : Text}
    (hs : current.has source = true) : roots.Below source := by
  obtain ⟨t, ht, hkeys⟩ := h
  obtain ⟨x, hx, -⟩ := Snapshots.has_iff.1 hs
  refine FileTree.below_of_mem_sources ht (hkeys ▸ ?_)
  exact Std.ExtTreeMap.mem_keys.2 (mem_iff_exists.2 ⟨x, hx⟩)

/-- What is recorded after a merge was recorded before, or is what the plan knows. -/
theorem Merge.has_snapshots_merge {prior : Option Analysis} {plan : Plan} {outcomes : List Outcome}
    {fingerprint p : Text} (h : (merge prior plan outcomes fingerprint).snapshots.has p = true) :
    plan.snapshots.has p = true ∨ ∃ a, prior = some a ∧ a.snapshots.has p = true := by
  obtain ⟨x, hx, hp⟩ := Snapshots.has_iff.1 h
  rcases snapshots_merge prior plan outcomes fingerprint p with ⟨i, G, -, -, hs⟩ | ⟨-, hs⟩
  · left
    rw [hs, noted] at hx
    split_ifs at hx
    exact Snapshots.has_iff.2 ⟨x, (Option.filter_eq_some_iff.1 hx).1, hp⟩
  · right
    rw [hs] at hx
    obtain ⟨-, a, ha, hx, -⟩ := getElem?_start.1 hx
    exact ⟨a, ha, Snapshots.has_iff.2 ⟨x, hx, hp⟩⟩

namespace Session

variable {s : Session} {seen : List Snapshots} {last : Option Analysis}

/-- What is loaded is what the last step left, or cannot be used. -/
def Loads (last : Option Analysis) (loaded : LoadOutcome) : Prop :=
  loaded.usable? = last ∨ loaded.usable? = none

/-- The analyses that steps can lead to, with what the sources looked like in these steps. -/
inductive Runs (s : Session) : List Snapshots → Option Analysis → Prop
  /-- Before the first step there is none. -/
  | start : Runs s [] none
  | step {seen : List Snapshots} {last : Option Analysis} {loaded : LoadOutcome}
      {current : Snapshots} {fingerprint : Text} {compile : Plan → List Outcome} {plan : Plan}
      {next : Analysis} :
      Runs s seen last → Loads last loaded →
      s.step loaded current fingerprint compile = .ok (plan, next) →
      Runs s (current :: seen) (some next)

theorem Loads.eq_some (h : Loads last loaded) {a : Analysis} (hu : loaded.usable? = some a) :
    last = some a := by
  rcases h with h | h
  · exact h ▸ hu
  · rw [h] at hu
    cases hu

/-- **What is recorded was seen.** -/
theorem Runs.exists_seen (h : s.Runs seen last) {a : Analysis} (ha : last = some a) {p : Text}
    (hp : a.snapshots.has p = true) : ∃ c ∈ seen, c.has p = true := by
  induction h generalizing a with
  | start => cases ha
  | @step seen last loaded current _ _ _ _ _ hl hstep ih =>
    cases ha
    obtain ⟨hsel, rfl⟩ := step_eq_ok hstep
    rcases Merge.has_snapshots_merge hp with hp | ⟨b, hb, hp⟩
    · rw [plan_snapshots hsel] at hp
      exact ⟨current, List.mem_cons_self, hp⟩
    · obtain ⟨c, hc, hp⟩ := ih (hl.eq_some hb) hp
      exact ⟨c, List.mem_cons_of_mem _ hc, hp⟩

/-- What was loaded and what is there was seen in some step. -/
theorem Runs.exists_seen_cons (h : s.Runs seen last) (hl : Loads last loaded) {source : Text}
    (hs : current.has source = true ∨
      ∃ a, loaded.usable? = some a ∧ a.snapshots.has source = true) :
    ∃ c ∈ current :: seen, c.has source = true := by
  rcases hs with hs | ⟨a, hu, hs⟩
  · exact ⟨current, List.mem_cons_self, hs⟩
  · obtain ⟨c, hc, hs⟩ := h.exists_seen (hl.eq_some hu) hs
    exact ⟨c, List.mem_cons_of_mem _ hc, hs⟩

/-- **Selecting from discovered sources fails only at a root**: at a source that is a root as
    well, and of which no unit is recorded.  It does so at each such source that differs from
    what is recorded. -/
theorem select_discovered (h : s.Runs seen last) (hl : Loads last loaded)
    (hd : ∀ c ∈ current :: seen, Discovered s.roots c) :
    ((∃ plan, select s.roots s.policy loaded current = .ok plan) ∨
      ∃ source, select s.roots s.policy loaded current = .error (.isRoot source) ∧
        (∃ c ∈ current :: seen, c.has source = true) ∧
        (∃ root ∈ s.roots.roots, Path.normalize s.roots.current root = source) ∧
        ∀ unit, ¬ Recorded loaded.usable? source unit) ∧
    ∀ source, Differs loaded.usable? current source →
      (∃ root ∈ s.roots.roots, Path.normalize s.roots.current root = source) →
      (∀ unit, ¬ Recorded loaded.usable? source unit) →
      ∀ plan, select s.roots s.policy loaded current ≠ .ok plan := by
  have hbelow {source : Text} (hs : current.has source = true ∨
      ∃ a, loaded.usable? = some a ∧ a.snapshots.has source = true) :
      s.roots.Below source := by
    obtain ⟨c, hc, hs⟩ := h.exists_seen_cons hl hs
    exact (hd c hc).below hs
  constructor
  · cases hsel : select s.roots s.policy loaded current with
    | ok plan => exact Or.inl ⟨plan, rfl⟩
    | error e =>
      obtain ⟨source, hr, hn, hs⟩ := exists_of_select_eq_error hsel
      obtain ⟨rfl, hroot⟩ := (hbelow hs).unitName_eq_error_iff.1 hn
      exact Or.inr ⟨source, rfl, h.exists_seen_cons hl hs, hroot, hr⟩
  · intro source hdiffers hroot hr plan hsel
    obtain ⟨unit, hrecorded | ⟨-, hn⟩⟩ := exists_owns_of_select hsel hdiffers
    · exact hr unit hrecorded
    · rw [(hbelow hdiffers.has).unitName_eq_error_iff.2 ⟨rfl, hroot⟩] at hn
      cases hn

/-- A tree with two sources. -/
def bothTree : FileTree :=
  { nodes := [("/", .folder), ("/p", .folder), ("/p/A.l", .file "a" 1),
      ("/p/B.l", .file "b" 1)].foldl (fun m e => m.insert e.1 e.2) ∅
    now := 1 }

/-- The tree without a file. -/
def without (path : Text) : FileTree := { bothTree with nodes := bothTree.nodes.erase path }

/-- The first source was compiled, then deleted. -/
theorem select_discovered_deleted : ∃ a, sample.Runs [both] (some a) ∧
    (∀ c ∈ [deleted, both], Discovered sample.roots c) ∧
    ∃ plan, select sample.roots sample.policy (.ofAnalysis a) deleted = .ok plan := by
  obtain ⟨⟨plan, a⟩, hstep⟩ : ∃ x, firstStep = some x :=
    Option.isSome_iff_exists.1 (by decide +kernel)
  have hruns : sample.Runs [both] (some a) :=
    .step .start (Or.inl rfl) (toOption_eq_some.1 hstep)
  have hdiscovered : ∀ c ∈ [deleted, both], Discovered sample.roots c := by
    intro c hc
    rcases List.mem_cons.1 hc with rfl | hc
    · exact ⟨without "/p/A.l", by decide +kernel, by decide +kernel⟩
    · rw [List.mem_singleton.1 hc]
      exact ⟨bothTree, by decide +kernel, by decide +kernel⟩
  refine ⟨a, hruns, hdiscovered, ?_⟩
  have hnoroot : ∀ c ∈ [deleted, both], ∀ root ∈ sample.roots.roots,
      ¬ c.has (Path.normalize sample.roots.current root) = true := by decide +kernel
  have hloads : Loads (some a) (.ofAnalysis a) := Or.inl rfl
  rcases (select_discovered hruns hloads hdiscovered).1 with hplan | ⟨_, -, hseen, hroot, -⟩
  · exact hplan
  · obtain ⟨c, hc, hs⟩ := hseen
    obtain ⟨root, hr, rfl⟩ := hroot
    exact absurd hs (hnoroot c hc root hr)

/-- **A root can be a file**, and is a source below another root then, for which selecting
    fails. -/
theorem select_discovered_root :
    let s : Session := { roots := ⟨["/p", "/p/A.l"], "l"⟩ }
    let current : Snapshots := both.erase "/p/B.l"
    s.roots.validate = .ok () ∧ s.Runs [] none ∧ Loads none {} ∧ Discovered s.roots current ∧
      select s.roots s.policy {} current = .error (.isRoot "/p/A.l") := by
  intro s current
  have hfails : (match select s.roots s.policy {} current with
    | .error e => some e
    | .ok _ => none) = some (.isRoot "/p/A.l") := by decide +kernel
  refine ⟨by decide, .start, Or.inl rfl, ⟨without "/p/B.l", by decide +kernel, by decide +kernel⟩, ?_⟩
  split at hfails
  · next e he => rw [he, Option.some.inj hfails]
  · cases hfails

end Session

end Rebuild
