/-
  The signs of binary numbers.

  * rounding keeps the sign (`negative_round`), and a number without one is not below zero
    (`lt_zero_of_negative`);
  * `mul_ofNat_lt_zero`: what is not below zero is not below it times a natural number
    either, infinities and minus zero included.
-/
import Mathlib.Tactic.Common
import Rebuild.Binary64

namespace Rebuild

namespace Binary64

theorem negative_round (negative : Bool) (num den : Nat) :
    (round negative num den).negative = negative := by
  unfold round
  split
  · rfl
  · dsimp only
    split <;> split <;> rfl

theorem lt_zero_of_negative {x : Binary64} (h : x.negative = false) : x.lt zero = false := by
  cases x with
  | nan => rfl
  | infinite s =>
    cases h
    rfl
  | finite s m e =>
    cases h
    have hle : (0 : Int) ≤ ((m <<< (e - min e minExponent).toNat : Nat) : Int) :=
      Int.natCast_nonneg _
    simpa [lt, zero, signed] using hle

/-- A finite number that is not below zero has no sign, or no value. -/
theorem sign_of_zero_le {s : Bool} {m : Nat} {e : Int} (h : zero.le (finite s m e) = true) :
    s = false ∨ m = 0 := by
  cases s with
  | false => exact Or.inl rfl
  | true =>
    right
    have hle : (0 : Int) ≤ -((m <<< (e - min minExponent e).toNat : Nat) : Int) := by
      simpa [le, zero, signed] using h
    generalize hn : m <<< (e - min minExponent e).toNat = n at hle
    have h0 : n = 0 := by omega
    rw [h0, Nat.shiftLeft_eq] at hn
    rcases Nat.mul_eq_zero.1 hn with hm | hp
    · exact hm
    · exact absurd hp (Nat.ne_of_gt (Nat.pow_pos (by decide)))

/-- What is not below zero is not below it times a number of units either. -/
theorem mul_ofNat_lt_zero {x : Binary64} (h : zero.le x = true) (n : Nat) :
    (x.mul (ofNat n)).lt zero = false := by
  have hn : (ofNat n).negative = false := negative_round false n 1
  generalize ofNat n = y at hn
  cases x with
  | nan s => cases h
  | infinite s =>
    have hs : s = false := by simpa [le, zero] using h
    subst hs
    cases y with
    | nan t => rfl
    | infinite t =>
      refine lt_zero_of_negative ?_
      simpa [mul, negative] using hn
    | finite t k f =>
      simp only [mul]
      split
      · rfl
      · refine lt_zero_of_negative ?_
        simpa [negative] using hn
  | finite s m e =>
    have hs := sign_of_zero_le h
    cases y with
    | nan t => rfl
    | infinite t =>
      simp only [mul]
      split
      · rfl
      · next hm =>
        refine lt_zero_of_negative ?_
        rw [hs.resolve_right hm]
        simpa [negative] using hn
    | finite t k f =>
      have ht : t = false := hn
      rcases hs with rfl | rfl
      · refine lt_zero_of_negative ?_
        rw [ht]
        exact negative_round _ _ _
      · have hz : ∀ e, (scale (0 * k) 1 e).1 = 0 := fun e => by
          cases e <;> simp [scale]
        simp only [mul, round, hz, if_true]
        cases s <;> cases t <;> rfl

end Binary64

end Rebuild
