/-
  What the operations on an analysis do to its records and to its snapshots.

  Units and snapshots are kept apart: entering and removing units leaves the snapshots as
  they are, and recording and forgetting snapshots leaves the units.
-/
import Mathlib.Tactic.Common
import Rebuild.Analysis
import Rebuild.Proofs.Containers

namespace Rebuild.Analysis

variable (a : Analysis)

theorem find?_removeUnit (unit n : Text) :
    (a.removeUnit unit).find? n = if unit = n then none else a.find? n :=
  a.getElem?_removeUnit unit n

theorem find?_putUnit (r : UnitRecord) (n : Text) :
    (a.putUnit r).find? n = if r.name = n then some r else a.find? n := a.getElem?_putUnit r n

@[simp] theorem snapshots_removeUnit (unit : Text) :
    (a.removeUnit unit).snapshots = a.snapshots := by
  unfold removeUnit
  split <;> rfl

@[simp] theorem snapshots_putUnit (r : UnitRecord) : (a.putUnit r).snapshots = a.snapshots :=
  a.snapshots_removeUnit r.name

@[simp] theorem find?_recordSnapshot (source : Text) (s : Snapshot) (n : Text) :
    (a.recordSnapshot source s).find? n = a.find? n := rfl

@[simp] theorem find?_forgetSnapshot (source n : Text) :
    (a.forgetSnapshot source).find? n = a.find? n := rfl

theorem getElem?_recordSnapshot (source : Text) (s : Snapshot) (p : Text) :
    (a.recordSnapshot source s).snapshots[p]? = if source = p then some s else a.snapshots[p]? := by
  simp [recordSnapshot, Std.ExtTreeMap.getElem?_insert, Std.LawfulEqCmp.compare_eq_iff_eq]

theorem getElem?_forgetSnapshot (source p : Text) :
    (a.forgetSnapshot source).snapshots[p]? = if source = p then none else a.snapshots[p]? := by
  simp [forgetSnapshot, Std.ExtTreeMap.getElem?_erase, Std.LawfulEqCmp.compare_eq_iff_eq]

@[simp] theorem units_putUnit (r : UnitRecord) : (a.putUnit r).units = a.units.insert r.name r := by
  refine Std.ExtTreeMap.ext_getElem? fun n => ?_
  rw [getElem?_putUnit, Std.ExtTreeMap.getElem?_insert]
  simp only [Std.LawfulEqCmp.compare_eq_iff_eq]

@[simp] theorem fingerprint_removeUnit (unit : Text) :
    (a.removeUnit unit).fingerprint = a.fingerprint := by
  unfold removeUnit
  split <;> rfl

@[simp] theorem fingerprint_putUnit (r : UnitRecord) :
    (a.putUnit r).fingerprint = a.fingerprint := a.fingerprint_removeUnit r.name

@[simp] theorem fingerprint_recordSnapshot (source : Text) (s : Snapshot) :
    (a.recordSnapshot source s).fingerprint = a.fingerprint := rfl

@[simp] theorem fingerprint_forgetSnapshot (source : Text) :
    (a.forgetSnapshot source).fingerprint = a.fingerprint := rfl

/-! ## Several at once -/

theorem fingerprint_foldl {γ : Type} {f : Analysis → γ → Analysis}
    (hf : ∀ b c, (f b c).fingerprint = b.fingerprint) (l : List γ) :
    (l.foldl f a).fingerprint = a.fingerprint := by
  induction l generalizing a with
  | nil => rfl
  | cons c l ih => rw [List.foldl_cons, ih, hf]

@[simp] theorem snapshots_foldl_removeUnit (units : List Text) :
    (units.foldl removeUnit a).snapshots = a.snapshots := by
  induction units generalizing a with
  | nil => rfl
  | cons u units ih => rw [List.foldl_cons, ih, snapshots_removeUnit]

theorem find?_foldl_removeUnit (units : List Text) (n : Text) :
    (units.foldl removeUnit a).find? n = if n ∈ units then none else a.find? n :=
  foldl_const find? removeUnit (fun _ => none) find?_removeUnit units a n

@[simp] theorem snapshots_foldl_putUnit (records : List UnitRecord) :
    (records.foldl putUnit a).snapshots = a.snapshots := by
  induction records generalizing a with
  | nil => rfl
  | cons r records ih => rw [List.foldl_cons, ih, snapshots_putUnit]

/-- Of the records of one name the last one is entered. -/
theorem find?_foldl_putUnit (records : List UnitRecord) (n : Text) (r : UnitRecord) :
    (records.foldl putUnit a).find? n = some r ↔
      (r.name = n ∧ ∃ earlier later, records = earlier ++ r :: later ∧
          ∀ q ∈ later, q.name ≠ n) ∨
        (∀ q ∈ records, q.name ≠ n) ∧ a.find? n = some r := by
  refine (foldl_eq_iff find? putUnit (fun q n => q.name = n) (fun q _ => some q) ?_ ?_ records a n
    (some r)).trans (or_congr_left ⟨?_, ?_⟩)
  · intro b q n hq
    rw [find?_putUnit, if_pos hq]
  · intro b q n hq
    rw [find?_putUnit, if_neg hq]
  · rintro ⟨earlier, q, later, he, hn, ⟨⟩, hl⟩
    exact ⟨hn, earlier, later, he, hl⟩
  · rintro ⟨hn, earlier, later, he, hl⟩
    exact ⟨earlier, r, later, he, hn, rfl, hl⟩

theorem find?_foldl_forgetSnapshot (sources : List Text) (n : Text) :
    (sources.foldl forgetSnapshot a).find? n = a.find? n := by
  induction sources generalizing a with
  | nil => rfl
  | cons s sources ih => rw [List.foldl_cons, ih, find?_forgetSnapshot]

theorem getElem?_foldl_forgetSnapshot (sources : List Text) (p : Text) :
    (sources.foldl forgetSnapshot a).snapshots[p]? =
      if p ∈ sources then none else a.snapshots[p]? :=
  foldl_const (fun a (p : Text) => a.snapshots[p]?) forgetSnapshot (fun _ => none)
    getElem?_forgetSnapshot sources a p

end Rebuild.Analysis
