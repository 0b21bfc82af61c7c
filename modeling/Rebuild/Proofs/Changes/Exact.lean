/-
  What a difference of snapshots leaves out, and how it is made up for.

  * `Snapshot.Agrees` is what is compared of two snapshots, and `Changes.Unchanged` says of a path
    that there is nothing to tell apart; `Changes.not_mem_iff`: these are the paths that a
    difference leaves out;
  * `Changes.between_swap`: backwards, what was added is removed;
  * `Analysis.snapshot_run_cases`: what edits leave recorded of a path is what one of them says, or
    what was recorded before;
  * `Changes.isEmpty_after_updates`: after the edits that a difference calls for, in any order,
    nothing differs.

  `Changes.between_exact` puts these together.
-/
import Rebuild.Proofs.Analysis.Edits
import Rebuild.Proofs.Changes

namespace Rebuild

/-! ## Equal metadata -/

namespace Snapshot

variable {a b : Snapshot}

/-- The same kind and, for files, the same time of modification and length. -/
def Agrees (a b : Snapshot) : Prop :=
  a.kind = b.kind ∧ (a.kind = .file → a.modified = b.modified ∧ a.length = b.length)

theorem same_iff : a.same b = true ↔ a.Agrees b := by
  simp only [same, Agrees, Bool.and_eq_true, Bool.or_eq_true, beq_iff_eq, bne_iff_ne, ne_eq,
    Classical.or_iff_not_imp_left, not_not]

theorem Agrees.refl (a : Snapshot) : a.Agrees a := ⟨rfl, fun _ => ⟨rfl, rfl⟩⟩

theorem Agrees.symm (h : a.Agrees b) : b.Agrees a := by
  refine ⟨h.1.symm, fun hfile => ?_⟩
  obtain ⟨hmodified, hlength⟩ := h.2 (h.1.trans hfile)
  exact ⟨hmodified.symm, hlength.symm⟩

end Snapshot

/-! ## The paths that are left out -/

namespace Changes

variable {recorded recorded' current : Snapshots} {path : Text}

/-- The path was there at neither time, or at both with the same metadata. -/
def Unchanged (recorded current : Snapshots) (path : Text) : Prop :=
  (¬ recorded.has path = true ∧ ¬ current.has path = true) ∨
    ∃ before now, recorded[path]? = some before ∧ current[path]? = some now ∧
      before.present = true ∧ now.present = true ∧ before.Agrees now

/-- Whether a path is unchanged depends on nothing that is recorded of others. -/
theorem Unchanged.congr (h : Unchanged recorded current path)
    (heq : recorded'[path]? = recorded[path]?) : Unchanged recorded' current path := by
  have hhas : recorded'.has path = recorded.has path := by rw [Snapshots.has, Snapshots.has, heq]
  rwa [Unchanged, hhas, heq]

theorem mem_modified_iff : path ∈ (between recorded current).modified ↔
    ∃ before now, recorded[path]? = some before ∧ current[path]? = some now ∧
      before.present = true ∧ now.present = true ∧ ¬ before.Agrees now := by
  simp only [mem_modified, ← Snapshot.same_iff, Bool.not_eq_true]

/-- What is modified was there before. -/
theorem recorded_has_of_mem_modified (h : path ∈ (between recorded current).modified) :
    recorded.has path = true := by
  obtain ⟨before, _, hb, _, hp, -⟩ := mem_modified.1 h
  exact Snapshots.has_iff.2 ⟨before, hb, hp⟩

/-- No path is in two parts of a difference. -/
theorem disjoint (recorded current : Snapshots) (path : Text) :
    let c := between recorded current
    ¬ (path ∈ c.added ∧ path ∈ c.removed) ∧ ¬ (path ∈ c.added ∧ path ∈ c.modified) ∧
      ¬ (path ∈ c.removed ∧ path ∈ c.modified) := by
  refine ⟨fun ⟨hadded, hremoved⟩ => ?_, fun ⟨hadded, hmodified⟩ => ?_,
    fun ⟨hremoved, hmodified⟩ => ?_⟩
  · exact (mem_removed.1 hremoved).2 (mem_added.1 hadded).1
  · exact (mem_added.1 hadded).2 (recorded_has_of_mem_modified hmodified)
  · exact (mem_removed.1 hremoved).2 (has_of_mem_modified hmodified)

/-- **The paths in no part of a difference** are the unchanged ones. -/
theorem not_mem_iff : (path ∉ (between recorded current).added ∧
    path ∉ (between recorded current).removed ∧ path ∉ (between recorded current).modified) ↔
      Unchanged recorded current path := by
  constructor
  · rintro ⟨hadded, hremoved, hmodified⟩
    rw [mem_added] at hadded
    rw [mem_removed] at hremoved
    by_cases hnow : current.has path = true
    · have hbefore : recorded.has path = true := by
        by_contra hbefore
        exact hadded ⟨hnow, hbefore⟩
      obtain ⟨now, hn, hnp⟩ := Snapshots.has_iff.1 hnow
      obtain ⟨before, hb, hbp⟩ := Snapshots.has_iff.1 hbefore
      refine Or.inr ⟨before, now, hb, hn, hbp, hnp, ?_⟩
      by_contra hagrees
      exact hmodified (mem_modified_iff.2 ⟨before, now, hb, hn, hbp, hnp, hagrees⟩)
    · exact Or.inl ⟨fun hbefore => hremoved ⟨hbefore, hnow⟩, hnow⟩
  · rintro (⟨hbefore, hnow⟩ | ⟨before, now, hb, hn, hbp, hnp, hagrees⟩)
    · exact ⟨fun h => hnow (mem_added.1 h).1, fun h => hbefore (mem_removed.1 h).1,
        fun h => hnow (has_of_mem_modified h)⟩
    · have hbefore := Snapshots.has_iff.2 ⟨before, hb, hbp⟩
      have hnow := Snapshots.has_iff.2 ⟨now, hn, hnp⟩
      refine ⟨fun h => (mem_added.1 h).2 hbefore, fun h => (mem_removed.1 h).2 hnow, fun h => ?_⟩
      obtain ⟨before', now', hb', hn', -, -, hdiffers⟩ := mem_modified_iff.1 h
      obtain rfl := Option.some.inj (hb.symm.trans hb')
      obtain rfl := Option.some.inj (hn.symm.trans hn')
      exact hdiffers hagrees

theorem isEmpty_iff : (between recorded current).isEmpty = true ↔
    ∀ path, Unchanged recorded current path := by
  simp only [← not_mem_iff, isEmpty, Bool.and_eq_true, Std.ExtTreeSet.isEmpty_iff,
    Std.ExtTreeSet.eq_empty_iff_forall_not_mem, and_assoc, forall_and]

/-- What differs backwards is modified as well. -/
theorem mem_modified_swap (h : path ∈ (between recorded current).modified) :
    path ∈ (between current recorded).modified := by
  obtain ⟨before, now, hb, hn, hbp, hnp, hdiffers⟩ := mem_modified_iff.1 h
  exact mem_modified_iff.2 ⟨now, before, hn, hb, hnp, hbp, fun hagrees => hdiffers hagrees.symm⟩

/-- **Backwards what was added is removed**, what was removed is added, and the same is modified. -/
theorem between_swap (recorded current : Snapshots) :
    (between current recorded).added = (between recorded current).removed ∧
      (between current recorded).removed = (between recorded current).added ∧
      (between current recorded).modified = (between recorded current).modified := by
  refine ⟨?_, ?_, ?_⟩ <;> refine Std.ExtTreeSet.ext_mem fun path => ?_
  · rw [mem_added, mem_removed]
  · rw [mem_removed, mem_added]
  · exact ⟨mem_modified_swap, mem_modified_swap⟩

end Changes

/-! ## What edits leave recorded -/

namespace Analysis

variable {a : Analysis} {es : List Edit} {path : Text}

/-- What an edit says about the snapshot of a path, if anything: what is recorded of it now, which
    is nothing if it was forgotten. -/
def Edit.notes? (path : Text) : Edit → Option (Option Snapshot)
  | record p s => if p = path then some (some s) else none
  | forget p => if p = path then some none else none
  | put _ | remove _ | setFingerprint _ => none

theorem snapshot_apply (e : Edit) :
    (e.apply a).snapshots[path]? = (e.notes? path).getD a.snapshots[path]? := by
  cases e with
  | put r => rw [Edit.apply, snapshots_putUnit]; rfl
  | remove unit => rw [Edit.apply, snapshots_removeUnit]; rfl
  | setFingerprint => rfl
  | record p s =>
    rw [Edit.apply, Edit.notes?, getElem?_recordSnapshot]
    split <;> rfl
  | forget p =>
    rw [Edit.apply, Edit.notes?, getElem?_forgetSnapshot]
    split <;> rfl

/-- **What edits leave recorded of a path** is what one of them says, or what was recorded before
    when none says anything. -/
theorem snapshot_run_cases (a : Analysis) (es : List Edit) (path : Text) :
    (∃ e ∈ es, e.notes? path = some (a.run es).snapshots[path]?) ∨
      (∀ e ∈ es, e.notes? path = none) ∧ (a.run es).snapshots[path]? = a.snapshots[path]? := by
  induction es generalizing a with
  | nil => exact Or.inr ⟨List.forall_mem_nil _, rfl⟩
  | cons e es ih =>
    have hrun : a.run (e :: es) = (e.apply a).run es := rfl
    rw [hrun]
    rcases ih (e.apply a) with ⟨d, hd, hnotes⟩ | ⟨hnone, hlast⟩
    · exact Or.inl ⟨d, List.mem_cons_of_mem e hd, hnotes⟩
    · rw [hlast, snapshot_apply]
      cases he : e.notes? path with
      | none => exact Or.inr ⟨List.forall_mem_cons.2 ⟨he, hnone⟩, rfl⟩
      | some noted => exact Or.inl ⟨e, List.mem_cons_self, he⟩

end Analysis

/-! ## Making up for a difference -/

namespace Changes

open Analysis

variable {recorded current : Snapshots} {path : Text} {es : List Edit}

/-- The edits that a difference calls for: the added and the modified paths are recorded as they
    are now, and the removed ones are forgotten. -/
def updates (c : Changes) (current : Snapshots) : List Edit :=
  (c.added.toList ++ c.modified.toList).filterMap
      (fun path => current[path]?.map fun now => .record path now) ++
    c.removed.toList.map .forget

theorem mem_updates {c : Changes} {e : Edit} : e ∈ c.updates current ↔
    (∃ path now, (path ∈ c.added ∨ path ∈ c.modified) ∧ current[path]? = some now ∧
        e = .record path now) ∨ ∃ path ∈ c.removed, e = .forget path := by
  simp only [updates, List.mem_append, List.mem_filterMap, List.mem_map, Option.map_eq_some_iff,
    Std.ExtTreeSet.mem_toList, @eq_comm _ e]
  exact or_congr_left (exists_congr fun _ => exists_and_left.symm)

/-- An edit that a difference calls for notes a path as it is now. -/
theorem unchanged_of_notes {now? : Option Snapshot} {e : Edit}
    (he : e ∈ (between recorded current).updates current) (hnotes : e.notes? path = some now?)
    {after : Snapshots} (hafter : after[path]? = now?) : Unchanged after current path := by
  rcases mem_updates.1 he with ⟨p, now, hmem, hn, rfl⟩ | ⟨p, hremoved, rfl⟩
  · obtain ⟨rfl, rfl⟩ : p = path ∧ some now = now? := by simpa [Edit.notes?] using hnotes
    have hhas : current.has p = true := by
      rcases hmem with hadded | hmodified
      · exact (mem_added.1 hadded).1
      · exact has_of_mem_modified hmodified
    obtain ⟨now', hn', hp⟩ := Snapshots.has_iff.1 hhas
    obtain rfl := Option.some.inj (hn.symm.trans hn')
    exact Or.inr ⟨now, now, hafter, hn, hp, hp, .refl now⟩
  · obtain ⟨rfl, rfl⟩ : p = path ∧ none = now? := by simpa [Edit.notes?] using hnotes
    refine Or.inl ⟨fun hhas => ?_, (mem_removed.1 hremoved).2⟩
    obtain ⟨_, hsome, -⟩ := Snapshots.has_iff.1 hhas
    rw [hafter] at hsome
    cases hsome

/-- A path that no such edit notes was unchanged before. -/
theorem unchanged_of_forall_notes
    (h : ∀ e ∈ (between recorded current).updates current, e.notes? path = none) :
    Unchanged recorded current path := by
  have hrecord {now : Snapshot} (hn : current[path]? = some now) :
      ¬ (path ∈ (between recorded current).added ∨ path ∈ (between recorded current).modified) :=
    fun hmem => by
      have := h _ (mem_updates.2 (Or.inl ⟨path, now, hmem, hn, rfl⟩))
      simp [Edit.notes?] at this
  refine not_mem_iff.1 ⟨fun hadded => ?_, fun hremoved => ?_, fun hmodified => ?_⟩
  · obtain ⟨now, hn, -⟩ := Snapshots.has_iff.1 (mem_added.1 hadded).1
    exact hrecord hn (Or.inl hadded)
  · have := h _ (mem_updates.2 (Or.inr ⟨path, hremoved, rfl⟩))
    simp [Edit.notes?] at this
  · obtain ⟨now, hn, -⟩ := Snapshots.has_iff.1 (has_of_mem_modified hmodified)
    exact hrecord hn (Or.inr hmodified)

/-- **After the edits that a difference calls for nothing differs**, in whatever order they are made
    and however often each. -/
theorem isEmpty_after_updates {a : Analysis}
    (hes : ∀ e, e ∈ es ↔ e ∈ (between a.snapshots current).updates current) :
    (between (a.run es).snapshots current).isEmpty = true := by
  refine isEmpty_iff.2 fun path => ?_
  rcases snapshot_run_cases a es path with ⟨e, he, hnotes⟩ | ⟨hnone, hlast⟩
  · exact unchanged_of_notes ((hes e).1 he) hnotes rfl
  · exact (unchanged_of_forall_notes fun e he => hnone e ((hes e).2 he)).congr hlast

/-- **What a difference of snapshots is.**  No path is in two of its parts, and the paths in none
    are those that were there at neither time, or at both with the same metadata.  Backwards the
    added and the removed paths change places.  When the added and the modified paths are recorded
    as they are now and the removed ones forgotten, in any order, nothing differs any more. -/
theorem between_exact (recorded current : Snapshots) :
    let c := between recorded current
    (∀ path, ¬ (path ∈ c.added ∧ path ∈ c.removed) ∧ ¬ (path ∈ c.added ∧ path ∈ c.modified) ∧
        ¬ (path ∈ c.removed ∧ path ∈ c.modified)) ∧
      (∀ path, (path ∉ c.added ∧ path ∉ c.removed ∧ path ∉ c.modified) ↔
        Unchanged recorded current path) ∧
      ((between current recorded).added = c.removed ∧ (between current recorded).removed = c.added ∧
        (between current recorded).modified = c.modified) ∧
      ∀ (a : Analysis) (es : List Edit), (∀ e, e ∈ es ↔ e ∈ c.updates current) →
        (between (({ a with snapshots := recorded } : Analysis).run es).snapshots
          current).isEmpty = true :=
  ⟨disjoint recorded current, fun _ => not_mem_iff, between_swap recorded current,
    fun _ _ hes => isEmpty_after_updates hes⟩

/-- Paths of every kind of change, as they were. -/
def earlierPaths : Snapshots :=
  ([("/back", { kind := .missing }), ("/gone", { kind := .file }), ("/kept", { kind := .directory }),
    ("/swapped", { kind := .file }), ("/touched", { kind := .file, modified := 1 })] :
    List (Text × Snapshot)).foldl (fun s c => s.insert c.1 c.2) ∅

/-- The same paths as they are. -/
def laterPaths : Snapshots :=
  ([("/back", { kind := .file }), ("/gone", { kind := .missing }), ("/kept", { kind := .directory }),
    ("/never", { kind := .missing }), ("/swapped", { kind := .directory }),
    ("/touched", { kind := .file, modified := 2 })] :
    List (Text × Snapshot)).foldl (fun s c => s.insert c.1 c.2) ∅

theorem between_exact_everyKind :
    let c := between earlierPaths laterPaths
    c.added.toList = ["/back"] ∧ c.removed.toList = ["/gone"] ∧
      c.modified.toList = ["/swapped", "/touched"] ∧
      Unchanged earlierPaths laterPaths "/kept" ∧ Unchanged earlierPaths laterPaths "/never" ∧
      (∀ e, e ∈ (c.updates laterPaths).reverse ++ c.updates laterPaths ↔ e ∈ c.updates laterPaths) ∧
      (between (({ Analysis.empty "f" with snapshots := earlierPaths } : Analysis).run
        ((c.updates laterPaths).reverse ++ c.updates laterPaths)).snapshots laterPaths).isEmpty =
          true := by
  obtain ⟨-, hunchanged, -, hempty⟩ := between_exact earlierPaths laterPaths
  have hedits : ∀ e, e ∈ ((between earlierPaths laterPaths).updates laterPaths).reverse ++
      (between earlierPaths laterPaths).updates laterPaths ↔
        e ∈ (between earlierPaths laterPaths).updates laterPaths := by simp
  exact ⟨by decide +kernel, by decide +kernel, by decide +kernel,
    (hunchanged "/kept").1 (by decide +kernel), (hunchanged "/never").1 (by decide +kernel), hedits,
    hempty (.empty "f") _ hedits⟩

end Changes

end Rebuild
