/-
  The decimal texts of binary floating numbers.

  * `Binary64.fixed` writes a number with a fixed count of decimal places;
  * `Binary64.general` writes a count of significant digits, without zeros at the end,
    with an exponent where the number is too large or too small for the digits.

  Both round the exact value of the number, a tie going to the even digit.
-/
import Rebuild.Binary64
import Rebuild.Text

namespace Rebuild.Binary64

/-- The text of what is no number, or of infinity. -/
def word (negative : Bool) (name : Text) : Text := if negative then "-" ++ name else name

/-- `digits` with a point before the last `places` of them, and at least one digit
    before the point. -/
def pointed (digits : Text) (places : Nat) : Text :=
  let digits := List.replicate (places + 1 - digits.length) (Text.byte '0') ++ digits
  let whole := digits.take (digits.length - places)
  if places = 0 then whole else whole ++ "." ++ digits.drop (digits.length - places)

/-- The number with exactly `places` decimal places. -/
def fixed (places : Nat) : Binary64 → Text
  | nan s => word s "nan"
  | infinite s => word s "inf"
  | finite s m e =>
    let (num, den) := scale m 1 e
    word s (pointed (Text.ofNat (roundDiv (num * Nat.pow 10 places) den)) places)

/-- `num / den` times ten to the power `e`, as a quotient. -/
def shift10 (num den : Nat) : Int → Nat × Nat
  | .ofNat e => (num * Nat.pow 10 e, den)
  | .negSucc e => (num, den * Nat.pow 10 (e + 1))

/-- The exponent of the first decimal digit of `num / den`. -/
def decimalMagnitude (num den : Nat) : Int :=
  let k : Int := ((Nat.toDigits 10 num).length : Int) - (Nat.toDigits 10 den).length
  let (n, d) := shift10 num den (-k)
  if n < d then k - 1 else k

/-- The first `count` significant digits of `num / den`, as a number, with the exponent
    of the first of them. -/
def significant (count num den : Nat) : Nat × Int :=
  let x := decimalMagnitude num den
  let (n, d) := shift10 num den (count - 1 - x)
  let digits := roundDiv n d
  if digits = Nat.pow 10 count then (Nat.pow 10 (count - 1), x + 1) else (digits, x)

/-- A text without zeros at the end, and without a point there. -/
def dropZeros (t : Text) : Text :=
  if t.contains (Text.byte '.') then
    Text.dropEndWhile (· == Text.byte '.') (Text.dropEndWhile (· == Text.byte '0') t)
  else t

/-- An exponent with its sign and at least two digits. -/
def exponentText (x : Int) : Text :=
  let digits := Text.ofNat x.natAbs
  (if x < 0 then "-" else "+") ++
    List.replicate (2 - digits.length) (Text.byte '0') ++ digits

/-- The number with `count` significant digits, less the zeros at the end. -/
def general (count : Nat) : Binary64 → Text
  | nan s => word s "nan"
  | infinite s => word s "inf"
  | finite s m e =>
    if m = 0 then word s "0"
    else
      let (num, den) := scale m 1 e
      let (digits, x) := significant count num den
      let text := Text.ofNat digits
      word s (if -4 ≤ x ∧ x < count then
          (if 0 ≤ x then dropZeros (pointed text (count - 1 - x.toNat))
           else dropZeros (pointed text (count - 1 + x.natAbs)))
        else dropZeros (pointed text (count - 1)) ++ "e" ++ exponentText x)

end Rebuild.Binary64
