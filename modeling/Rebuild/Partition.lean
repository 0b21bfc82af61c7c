/-
  A partition of the numbers below a bound into classes, joined pair by pair.

  * every number points at a number that is not larger, and the first of a class at
    itself; the bound on the pointers is part of the type, so walking along them ends;
  * `Partition.find` walks to the first number of a class, and on the way lets every
    number it passes point two places ahead;
  * `Partition.join` makes one class of two.
-/

namespace Rebuild

/-- Classes of numbers.  A number outside the array stands alone. -/
structure Partition where
  /-- What each number points at. -/
  parents : Array Nat
  parents_le : ∀ x, parents.getD x x ≤ x

namespace Partition

/-- Every number alone. -/
def discrete (n : Nat) : Partition where
  parents := Array.range n
  parents_le x := by
    simp only [Array.getD_eq_getD_getElem?]
    by_cases h : x < n <;> simp [h]

/-- What `x` points at. -/
def parent (p : Partition) (x : Nat) : Nat := p.parents.getD x x

theorem parent_le (p : Partition) (x : Nat) : p.parent x ≤ x := p.parents_le x

/-- Lets `x` point at a number that is not larger. -/
def point (p : Partition) (x y : Nat) (h : y ≤ x) : Partition where
  parents := p.parents.setIfInBounds x y
  parents_le z := by
    simp only [Array.getD_eq_getD_getElem?, Array.getElem?_setIfInBounds]
    have := p.parents_le z
    simp only [Array.getD_eq_getD_getElem?] at this
    split
    · next hz =>
      subst hz
      split
      · simpa using h
      · simp
    · exact this

/-- The first number of the class of `x`, with the pointers shortened on the way. -/
def find (p : Partition) (x : Nat) : Partition × Nat :=
  if _h : p.parent x = x then (p, x)
  else
    let ahead := p.parent (p.parent x)
    (p.point x ahead (Nat.le_trans (p.parent_le _) (p.parent_le _))).find ahead
termination_by x
decreasing_by
  have h1 := p.parent_le x
  have h2 := p.parent_le (p.parent x)
  omega

/-- Joins the classes of `a` and `b`; the smaller of their first numbers stays first. -/
def join (p : Partition) (a b : Nat) : Partition :=
  let (p, a) := p.find a
  let (p, b) := p.find b
  if a = b then p else p.point (max a b) (min a b) (by omega)

end Partition

end Rebuild
