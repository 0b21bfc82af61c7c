/-
  What is in a difference of snapshots.

  A path is added when it is there now only, removed when it was there before only, and
  modified when it was there at both times and something that is compared differs.
-/
import Mathlib.Tactic.Common
import Rebuild.Proofs.Containers
import Rebuild.Snapshot

namespace Rebuild

theorem Snapshots.has_iff {s : Snapshots} {path : Text} :
    s.has path = true ↔ ∃ x, s[path]? = some x ∧ x.present = true := by
  rw [has, Option.any_eq_true]

namespace Changes

variable {recorded current : Snapshots} {path : Text}

theorem mem_added : path ∈ (between recorded current).added ↔
    current.has path = true ∧ recorded.has path ≠ true := by
  simp only [between, mem_keys_filter, current.has_iff, Bool.and_eq_true, Bool.not_eq_true',
    ne_eq, Bool.not_eq_true]
  tauto

theorem mem_removed : path ∈ (between recorded current).removed ↔
    recorded.has path = true ∧ current.has path ≠ true := by
  simp only [between, mem_keys_filter, recorded.has_iff, Bool.and_eq_true, Bool.not_eq_true',
    ne_eq, Bool.not_eq_true]
  tauto

theorem mem_modified : path ∈ (between recorded current).modified ↔
    ∃ before now, recorded[path]? = some before ∧ current[path]? = some now ∧
      before.present = true ∧ now.present = true ∧ before.same now = false := by
  simp only [between, mem_keys_filter, Bool.and_eq_true, Option.any_eq_true, Bool.not_eq_true']
  constructor
  · rintro ⟨now, hn, hp, before, hb, hb', hs⟩
    exact ⟨before, now, hb, hn, hb', hp, hs⟩
  · rintro ⟨before, now, hb, hn, hb', hp, hs⟩
    exact ⟨now, hn, hp, before, hb, hb', hs⟩

/-- What is modified is there now. -/
theorem has_of_mem_modified (h : path ∈ (between recorded current).modified) :
    current.has path = true := by
  obtain ⟨_, now, _, hn, _, hp, _⟩ := mem_modified.1 h
  exact Snapshots.has_iff.2 ⟨now, hn, hp⟩

end Changes

end Rebuild
