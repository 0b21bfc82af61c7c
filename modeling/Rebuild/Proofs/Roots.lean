/-
  The root that a source is named after.

  * `Roots.IsDeepest`: of the roots that hold a path no other one is deeper;
  * `Roots.deepest_spec`: one of these is found, if any root holds the path;
  * `Roots.Below`: a source lies below a root if it has further names behind those of the root;
  * `Roots.Below.unitName`: such a source has a unit, unless it is a root itself.
-/
import Mathlib.Data.List.Induction
import Rebuild.Proofs.Path.Normal
import Rebuild.Roots

namespace Rebuild.Roots

open Rebuild.Path

variable {r : Roots} {t source : Text} {names path root : List Text}

/-! ## Places -/

theorem steps_of_ne_nil (h : t ≠ []) : r.steps t = [slash] :: namesOf r.current t := if_neg h

theorem steps_ofNames (h : ∀ n ∈ names, Descends n) :
    r.steps (ofNames names) = [slash] :: names := by
  rw [steps_of_ne_nil (ofNames_ne_nil names), namesOf_ofNames h]

/-! ## The deepest root -/

/-- A root that holds a path, and none that does is deeper. -/
structure IsDeepest (r : Roots) (roots : List Text) (path root : List Text) : Prop where
  exists_root : ∃ t ∈ roots, r.steps t = root
  holds : root <+: path
  deepest : ∀ t ∈ roots, r.steps t <+: path → (r.steps t).length ≤ root.length

/-- The deepest root is all of the path if some root is. -/
theorem IsDeepest.drop_eq_nil_iff {roots : List Text} (h : r.IsDeepest roots path root) :
    path.drop root.length = [] ↔ ∃ t ∈ roots, r.steps t = path := by
  rw [List.drop_eq_nil_iff]
  constructor
  · intro hle
    rw [← h.holds.eq_of_length_le hle]
    exact h.exists_root
  · rintro ⟨t, ht, rfl⟩
    exact h.deepest t ht (List.prefix_refl _)

/-- What is deepest of some roots: one of them, or nothing if none holds the path. -/
def Deepest (r : Roots) (roots : List Text) (path : List Text) : Option (List Text) → Prop
  | none => ∀ t ∈ roots, ¬ r.steps t <+: path
  | some root => r.IsDeepest roots path root

theorem Deepest.concat {roots : List Text} {best : Option (List Text)}
    (h : r.Deepest roots path best) (t : Text) :
    r.Deepest (roots ++ [t]) path (r.deeper path best t) := by
  unfold deeper
  dsimp only
  split_ifs with hd
  · -- the new root is deeper than the best so far
    obtain ⟨hholds, hlonger⟩ := hd
    rw [List.isPrefixOf_iff_prefix] at hholds
    refine ⟨⟨t, by simp, rfl⟩, hholds, fun u hu hheld => ?_⟩
    rcases List.mem_append.1 hu with hu | hu
    · cases best with
      | none => exact absurd hheld (h u hu)
      | some root =>
        have hlt : root.length < (r.steps t).length := by simpa using hlonger
        exact Nat.le_trans (h.deepest u hu hheld) (Nat.le_of_lt hlt)
    · rw [List.mem_singleton.1 hu]
  · rw [List.isPrefixOf_iff_prefix] at hd
    cases best with
    | none =>
      intro u hu
      rcases List.mem_append.1 hu with hu | hu
      · exact h u hu
      · rw [List.mem_singleton.1 hu]
        simpa using hd
    | some root =>
      refine ⟨h.exists_root.imp fun u hu => ⟨List.mem_append_left _ hu.1, hu.2⟩, h.holds,
        fun u hu hheld => ?_⟩
      rcases List.mem_append.1 hu with hu | hu
      · exact h.deepest u hu hheld
      · rw [List.mem_singleton.1 hu] at hheld ⊢
        simpa [hheld] using hd

/-- **The deepest root is found**, if any root holds the path. -/
theorem deepest_spec (r : Roots) (path : List Text) : r.Deepest r.roots path (r.deepest path) := by
  rw [deepest]
  induction r.roots using List.reverseRecOn with
  | nil => nofun
  | append_singleton roots t ih =>
    rw [List.foldl_append, List.foldl_cons, List.foldl_nil]
    exact ih.concat t

/-! ## Sources below a root -/

/-- The source has names behind those of a root. -/
def Below (r : Roots) (source : Text) : Prop :=
  ∃ t ∈ r.roots, t ≠ [] ∧ ∃ names, names ≠ [] ∧ (∀ n ∈ names, Descends n) ∧
    source = ofNames (namesOf r.current t ++ names)

/-- Two paths lead to the same place. -/
theorem steps_eq_iff (hnames : ∀ n ∈ names, Descends n) :
    r.steps t = [slash] :: names ↔ normalize r.current t = ofNames names := by
  by_cases ht : t = []
  · rw [ht]
    exact ⟨nofun, fun h => absurd h.symm (ofNames_ne_nil names)⟩
  · rw [steps_of_ne_nil ht, normalize_eq ht]
    refine ⟨fun h => by rw [(List.cons.inj h).2], fun h => ?_⟩
    have h := congrArg (namesOf r.current) h
    rw [namesOf_ofNames fun _ => descends_of_mem_namesOf, namesOf_ofNames hnames] at h
    rw [h]

/-- **A source below a root has a unit**, unless it is a root itself. -/
theorem Below.unitName_eq_error_iff (h : r.Below source) {e : RootsError} :
    r.unitName source = .error e ↔
      e = .isRoot source ∧ ∃ t ∈ r.roots, normalize r.current t = source := by
  obtain ⟨t, ht, htne, below, hne, hbelow, rfl⟩ := h
  have hnames : ∀ n ∈ namesOf r.current t ++ below, Descends n := fun n hn =>
    (List.mem_append.1 hn).elim descends_of_mem_namesOf (hbelow n)
  have hheld : r.steps t <+: [slash] :: (namesOf r.current t ++ below) := by
    rw [steps_of_ne_nil htne]
    exact List.prefix_append ([slash] :: namesOf r.current t) below
  have hspec := r.deepest_spec ([slash] :: (namesOf r.current t ++ below))
  simp only [← steps_eq_iff hnames]
  rw [unitName, steps_ofNames hnames, normalize_ofNames hnames]
  generalize namesOf r.current t ++ below = names at *
  cases hd : r.deepest ([slash] :: names) with
  | none =>
    rw [hd] at hspec
    exact absurd hheld (hspec t ht)
  | some root =>
    rw [hd] at hspec
    have hpos : 0 < root.length := by
      have hle := hspec.deepest t ht hheld
      rw [steps_of_ne_nil htne] at hle
      exact Nat.lt_of_lt_of_le (Nat.succ_pos _) hle
    obtain ⟨name, root, rfl⟩ := List.exists_cons_of_length_pos hpos
    rw [← hspec.drop_eq_nil_iff]
    cases hdrop : ([slash] :: names).drop (name :: root).length with
    | nil =>
      simp only [hdrop]
      exact ⟨fun h => ⟨(Except.error.inj h).symm, trivial⟩, fun h => h.1 ▸ rfl⟩
    | cons first rest =>
      simp only [hdrop]
      exact ⟨nofun, nofun⟩

end Rebuild.Roots
