/-
  Binary floating numbers of 64 bits: values, rounding, product and order.

  * a finite number is a mantissa times a power of two, so its value is a quotient of
    natural numbers and every operation below is exact arithmetic with one rounding;
  * `Binary64.round` is the nearest number to a quotient, a tie going to the even
    mantissa;
  * `Binary64.ofBits` and `Binary64.toBits` read and write the 64 bits.
-/

namespace Rebuild

/-- A binary floating number of 64 bits. -/
inductive Binary64
  /-- No number. -/
  | nan (negative : Bool)
  | infinite (negative : Bool)
  /-- The mantissa times two to the exponent. -/
  | finite (negative : Bool) (mantissa : Nat) (exponent : Int)
deriving DecidableEq, Repr

namespace Binary64

/-! ## Rounding -/

/-- `num / den` rounded to a natural number, a half going to the even neighbour. -/
def roundDiv (num den : Nat) : Nat :=
  let q := num / den
  let r := num % den
  if den < 2 * r ∨ (den = 2 * r ∧ q % 2 = 1) then q + 1 else q

/-- The quotient `num / den` times two to the power `e`, as a quotient. -/
def scale (num den : Nat) : Int → Nat × Nat
  | .ofNat e => (num <<< e, den)
  | .negSucc e => (num, den <<< (e + 1))

/-- The exponent of the highest bit of `num / den`: two to this power is at most the
    quotient, which is less than twice of it. -/
def magnitude (num den : Nat) : Int :=
  let k : Int := (num.log2 : Int) - den.log2
  let (n, d) := scale num den (-k)
  if n < d then k - 1 else k

/-- The smallest exponent of a number. -/
def minExponent : Int := -1074

/-- The largest exponent of a number. -/
def maxExponent : Int := 971

/-- The nearest number to `num / den`. -/
def round (negative : Bool) (num den : Nat) : Binary64 :=
  if num = 0 then finite negative 0 minExponent
  else
    let e := max (magnitude num den - 52) minExponent
    let (n, d) := scale num den (-e)
    let m := roundDiv n d
    let (m, e) := if m = 1 <<< 53 then (1 <<< 52, e + 1) else (m, e)
    if maxExponent < e then infinite negative else finite negative m e

/-- The number nearest to `n`. -/
def ofNat (n : Nat) : Binary64 := round false n 1

/-! ## Bits -/

/-- The number that 64 bits stand for. -/
def ofBits (bits : UInt64) : Binary64 :=
  let negative := bits.toNat >>> 63 = 1
  let exponent : Nat := bits.toNat >>> 52 % 2048
  let fraction := bits.toNat % 1 <<< 52
  if exponent = 2047 then (if fraction = 0 then infinite negative else nan negative)
  else if exponent = 0 then finite negative fraction minExponent
  else finite negative (1 <<< 52 + fraction) (minExponent + (exponent - 1 : Nat))

/-- The bits without the sign. -/
def magnitudeBits : Binary64 → Nat
  | nan _ => 2047 <<< 52 + 1 <<< 51
  | infinite _ => 2047 <<< 52
  | finite _ m e => if m < 1 <<< 52 then m else (e - minExponent).toNat <<< 52 + m

/-- The sign. -/
def negative : Binary64 → Bool
  | nan s | infinite s | finite s _ _ => s

/-- The 64 bits of a number. -/
def toBits (x : Binary64) : UInt64 :=
  UInt64.ofNat ((if x.negative then 1 <<< 63 else 0) + x.magnitudeBits)

/-! ## Order and product -/

/-- The sign applied to a magnitude. -/
def signed (negative : Bool) (n : Nat) : Int := if negative then -n else n

/-- `a < b`; no comparison with what is no number holds. -/
def lt : Binary64 → Binary64 → Bool
  | nan _, _ | _, nan _ => false
  | infinite s, infinite t => s && !t
  | infinite s, finite .. => s
  | finite .., infinite t => !t
  | finite s m e, finite t n f =>
    signed s (m <<< (e - min e f).toNat) < signed t (n <<< (f - min e f).toNat)

/-- `a ≤ b`; no comparison with what is no number holds. -/
def le : Binary64 → Binary64 → Bool
  | nan _, _ | _, nan _ => false
  | infinite s, infinite t => s || !t
  | infinite s, finite .. => s
  | finite .., infinite t => !t
  | finite s m e, finite t n f =>
    signed s (m <<< (e - min e f).toNat) ≤ signed t (n <<< (f - min e f).toNat)

/-- The nearest number to the product; nothing times infinity is no number. -/
def mul : Binary64 → Binary64 → Binary64
  | nan s, _ | _, nan s => nan s
  | infinite s, infinite t => infinite (s != t)
  | infinite s, finite t n _ | finite t n _, infinite s =>
    if n = 0 then nan true else infinite (s != t)
  | finite s m e, finite t n f =>
    let (num, den) := scale (m * n) 1 (e + f)
    round (s != t) num den

/-- Nothing. -/
def zero : Binary64 := finite false 0 minExponent

/-- One. -/
def one : Binary64 := ofNat 1

end Binary64

end Rebuild
