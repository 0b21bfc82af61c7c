/-
  Numerals at the beginning of a text.

  Blanks and one sign may stand in front of the digits, and anything may follow; how much
  of the text is taken is part of the answer.

  * `Numeral.read?` reads a decimal integer of any size;
  * `Numeral.unsigned?` and `Numeral.signed?` are its value in a word of 64 bits.
-/
import Rebuild.Text

namespace Rebuild

/-- An integer at the beginning of a text. -/
structure Numeral where
  /-- There is a minus sign. -/
  negative : Bool
  magnitude : Nat
  /-- What follows the digits. -/
  rest : Text
deriving DecidableEq, Repr

namespace Numeral

/-- A blank in front of a numeral: space, tab, line feed, vertical tab, form feed,
    carriage return. -/
def isBlank (b : UInt8) : Bool := b == 32 || (9 ≤ b && b ≤ 13)

/-- The value of a decimal digit. -/
def digit? (b : UInt8) : Option Nat :=
  if Text.byte '0' ≤ b ∧ b ≤ Text.byte '9' then some (b.toNat - (Text.byte '0').toNat) else none

/-- The value of a hexadecimal digit in any case. -/
def hexDigit? (b : UInt8) : Option Nat :=
  if Text.byte 'a' ≤ b ∧ b ≤ Text.byte 'f' then some (b.toNat - (Text.byte 'a').toNat + 10)
  else if Text.byte 'A' ≤ b ∧ b ≤ Text.byte 'F' then some (b.toNat - (Text.byte 'A').toNat + 10)
  else digit? b

/-- Takes the digits at the beginning: their value on top of `n`, how many they are on
    top of `count`, and the rest. -/
def digits (value? : UInt8 → Option Nat) (base n count : Nat) : Text → Nat × Nat × Text
  | [] => (n, count, [])
  | b :: t =>
    match value? b with
    | some d => digits value? base (n * base + d) (count + 1) t
    | none => (n, count, b :: t)

/-- Takes a sign: whether it is a minus, and the rest. -/
def sign : Text → Bool × Text
  | [] => (false, [])
  | b :: t =>
    if b = Text.byte '-' then (true, t)
    else if b = Text.byte '+' then (false, t)
    else (false, b :: t)

/-- The decimal integer at the beginning, if there is at least one digit. -/
def read? (t : Text) : Option Numeral :=
  let (negative, t) := sign (t.dropWhile isBlank)
  let (n, count, rest) := digits digit? 10 0 0 t
  if count = 0 then none else some ⟨negative, n, rest⟩

/-- The value in an unsigned word; a minus sign takes the complement.  Nothing if the
    magnitude does not fit. -/
def unsigned? (n : Numeral) : Option UInt64 :=
  if n.magnitude < UInt64.size then
    some (if n.negative then 0 - UInt64.ofNat n.magnitude else UInt64.ofNat n.magnitude)
  else none

/-- The value in a signed word, if it fits. -/
def signed? (n : Numeral) : Option Int :=
  let value : Int := if n.negative then -n.magnitude else n.magnitude
  if Int64.minValue.toInt ≤ value ∧ value ≤ Int64.maxValue.toInt then some value else none

/-- The value in a signed word, the nearest one if it does not fit. -/
def clamped (n : Numeral) : Int :=
  let value : Int := if n.negative then -n.magnitude else n.magnitude
  max Int64.minValue.toInt (min value Int64.maxValue.toInt)

end Numeral

end Rebuild
