/-
  The classes of a partition.

  * `Partition.root` is the first number of a class, where the pointers end;
  * `Partition.find` returns it and keeps the classes (`find_snd`, `root_find`);
  * `Partition.join` gives two classes the smaller of their first numbers (`root_join`).
-/
import Mathlib.Tactic.Common
import Rebuild.Partition

namespace Rebuild

namespace Partition

/-- The first number of the class of `x`. -/
def root (p : Partition) (x : Nat) : Nat :=
  if _h : p.parent x = x then x else p.root (p.parent x)
termination_by x
decreasing_by
  have := p.parent_le x
  omega

section
variable (p : Partition) (x : Nat)

theorem root_of_parent {x : Nat} (h : p.parent x = x) : p.root x = x := by
  unfold root
  rw [dif_pos h]

theorem root_parent : p.root (p.parent x) = p.root x := by
  by_cases h : p.parent x = x
  · rw [h]
  · conv_rhs => unfold root
    rw [dif_neg h]

theorem root_le : p.root x ≤ x := by
  induction x using Nat.strongRecOn with
  | ind x ih =>
    by_cases h : p.parent x = x
    · exact Nat.le_of_eq (p.root_of_parent h)
    · rw [← p.root_parent x]
      have := p.parent_le x
      exact Nat.le_trans (ih _ (by omega)) this

theorem parent_root : p.parent (p.root x) = p.root x := by
  induction x using Nat.strongRecOn with
  | ind x ih =>
    by_cases h : p.parent x = x
    · rw [p.root_of_parent h, h]
    · rw [← p.root_parent x]
      have := p.parent_le x
      exact ih _ (by omega)

theorem root_root : p.root (p.root x) = p.root x := p.root_of_parent (p.parent_root x)

end

/-- The first numbers are determined by where the pointers end. -/
theorem root_eq {p : Partition} {f : Nat → Nat} (hf : ∀ x, f (p.parent x) = f x)
    (hr : ∀ x, p.parent x = x → f x = x) (x : Nat) : p.root x = f x := by
  have h : f (p.root x) = f x := by
    induction x using Nat.strongRecOn with
    | ind x ih =>
      by_cases h : p.parent x = x
      · rw [p.root_of_parent h]
      · have := p.parent_le x
        rw [← p.root_parent x, ih _ (by omega), hf]
  rw [← h, hr _ (p.parent_root x)]

theorem parent_point (p : Partition) (x y z : Nat) (h : y ≤ x) :
    (p.point x y h).parent z = if z = x ∧ z < p.parents.size then y else p.parent z := by
  simp only [parent, point, Array.getD_eq_getD_getElem?, Array.getElem?_setIfInBounds]
  by_cases hz : x = z
  · subst hz
    by_cases hs : x < p.parents.size <;> simp [hs]
  · simp [hz, Ne.symm hz]

/-- Letting a number point elsewhere in its class changes no class. -/
theorem root_point_of_root {p : Partition} {x y : Nat} (h : y < x) (hr : p.root y = p.root x)
    (z : Nat) : (p.point x y (Nat.le_of_lt h)).root z = p.root z := by
  refine root_eq (fun z => ?_) (fun z hz => ?_) z
  · rw [parent_point]
    split
    · next hz => rw [hr, hz.1]
    · exact p.root_parent z
  · rw [parent_point] at hz
    split at hz
    · next hzx => omega
    · exact p.root_of_parent hz

/-! ## Finding -/

/-- **The classes stay, and the first number of one is found.** -/
theorem find_spec (p : Partition) (x : Nat) :
    (p.find x).2 = p.root x ∧ (∀ z, (p.find x).1.root z = p.root z) ∧
      (p.find x).1.parents.size = p.parents.size := by
  induction x using Nat.strongRecOn generalizing p with
  | ind x ih =>
    unfold find
    by_cases h : p.parent x = x
    · rw [dif_pos h]
      exact ⟨(p.root_of_parent h).symm, fun z => rfl, rfl⟩
    · rw [dif_neg h]
      have hx : p.parent x < x := Nat.lt_of_le_of_ne (p.parent_le x) h
      have hlt : p.parent (p.parent x) < x := Nat.lt_of_le_of_lt (p.parent_le _) hx
      have hr : p.root (p.parent (p.parent x)) = p.root x := by
        rw [p.root_parent, p.root_parent]
      obtain ⟨h1, h2, h3⟩ := ih _ hlt (p.point x _ (Nat.le_of_lt hlt))
      refine ⟨?_, fun z => ?_, ?_⟩
      · rw [h1, root_point_of_root hlt hr, hr]
      · rw [h2, root_point_of_root hlt hr]
      · rw [h3]
        simp [point]

theorem find_snd (p : Partition) (x : Nat) : (p.find x).2 = p.root x := (p.find_spec x).1

theorem root_find (p : Partition) (x z : Nat) : (p.find x).1.root z = p.root z :=
  (p.find_spec x).2.1 z

theorem size_find (p : Partition) (x : Nat) : (p.find x).1.parents.size = p.parents.size :=
  (p.find_spec x).2.2

/-! ## Joining -/

/-- A first number that points at the one of another class takes its class there. -/
theorem root_point_of_roots {p : Partition} {x y : Nat} (hlt : y < x)
    (hs : x < p.parents.size) (hx : p.root x = x) (hy : p.root y = y) (z : Nat) :
    (p.point x y (Nat.le_of_lt hlt)).root z = if p.root z = x then y else p.root z := by
  refine root_eq (f := fun z => if p.root z = x then y else p.root z) (fun z => ?_)
    (fun z hz => ?_) z
  · rw [parent_point]
    by_cases hz : z = x
    · subst hz
      simp [hs, hx, hy]
    · simp [hz, p.root_parent z]
  · rw [parent_point] at hz
    split at hz
    · omega
    · next hne =>
      have hz' := p.root_of_parent hz
      have hzx : z ≠ x := fun h => hne ⟨h, h ▸ hs⟩
      simp [hz', hzx]

/-- **Two classes become one**: the smaller of their first numbers stays first. -/
theorem root_join {p : Partition} {a b : Nat} (ha : a < p.parents.size)
    (hb : b < p.parents.size) (z : Nat) :
    (p.join a b).root z =
      if p.root z = p.root a ∨ p.root z = p.root b then min (p.root a) (p.root b)
      else p.root z := by
  unfold join
  simp only [find_snd, root_find]
  have hra := Nat.lt_of_le_of_lt (p.root_le a) ha
  have hrb := Nat.lt_of_le_of_lt (p.root_le b) hb
  split
  · next h =>
    simp only [root_find, h, or_self, Nat.min_self]
    split <;> first | assumption | rfl
  · next h =>
    have hlt : min (p.root a) (p.root b) < max (p.root a) (p.root b) := by omega
    have hmax : p.root (max (p.root a) (p.root b)) = max (p.root a) (p.root b) := by
      rcases Nat.le_total (p.root a) (p.root b) with h | h
      · rw [Nat.max_eq_right h, root_root]
      · rw [Nat.max_eq_left h, root_root]
    have hmin : p.root (min (p.root a) (p.root b)) = min (p.root a) (p.root b) := by
      rcases Nat.le_total (p.root a) (p.root b) with h | h
      · rw [Nat.min_eq_left h, root_root]
      · rw [Nat.min_eq_right h, root_root]
    rw [root_point_of_roots hlt]
    · simp only [root_find]
      grind
    · rw [size_find, size_find]
      omega
    · simpa only [root_find] using hmax
    · simpa only [root_find] using hmin

/-- Two numbers are in one class if they were before or both were in one of the two. -/
theorem root_join_eq_iff {p : Partition} {a b : Nat} (ha : a < p.parents.size)
    (hb : b < p.parents.size) (x y : Nat) :
    (p.join a b).root x = (p.join a b).root y ↔ p.root x = p.root y ∨
      (p.root x = p.root a ∨ p.root x = p.root b) ∧
        (p.root y = p.root a ∨ p.root y = p.root b) := by
  rw [root_join ha hb, root_join ha hb]
  grind

theorem size_join (p : Partition) (a b : Nat) :
    (p.join a b).parents.size = p.parents.size := by
  unfold join
  simp only
  split
  · rw [size_find, size_find]
  · simp [point, size_find]

theorem root_discrete (n x : Nat) : (discrete n).root x = x := by
  refine root_of_parent _ ?_
  simp only [parent, discrete, Array.getD_eq_getD_getElem?]
  by_cases h : x < n <;> simp [h]

end Partition

end Rebuild
