/-
  Reading binary floating numbers.

  A number is decimal, hexadecimal with a power of two, `inf`, `infinity` or `nan`, in any
  case, after blanks and a sign.  It is rounded once, from its exact value.

  * `Binary64.Reading` has the number, what follows it, and whether its value is beyond
    the range: too large, or so small that digits are lost;
  * `Binary64.read?` reads the number at the beginning of a text.
-/
import Rebuild.Binary64
import Rebuild.Numeral

namespace Rebuild.Binary64

/-- A number at the beginning of a text. -/
structure Reading where
  value : Binary64
  /-- The exact value is beyond the range of the numbers. -/
  outOfRange : Bool := false
  /-- What follows. -/
  rest : Text

/-- The quotient is smaller than every number with a full mantissa, and rounding it to a
    full mantissa would not change that. -/
def isTiny (num den : Nat) : Bool := num <<< 1076 < den * (1 <<< 54 - 1)

/-- The number is exactly the quotient. -/
def isExactly (num den : Nat) : Binary64 → Bool
  | finite _ m e =>
    let (n, d) := scale m 1 e
    n * den == num * d
  | _ => false

/-- The number nearest to a quotient, and whether the quotient is beyond the range. -/
def roundReading (negative : Bool) (num den : Nat) (rest : Text) : Reading :=
  let value := round negative num den
  let outOfRange := match value with
    | finite .. => isTiny num den && !isExactly num den value
    | _ => true
  ⟨value, outOfRange, rest⟩

/-- The exponent from which on every number is too large. -/
def hugeExponent : Int := 5000

/-- The number nearest to `n` times `base` to the power `e`.  Powers far beyond the range
    are not computed. -/
def ofPower (negative : Bool) (n base : Nat) (e : Int) (rest : Text) : Reading :=
  let size : Int := n.log2
  if n = 0 then ⟨finite negative 0 minExponent, false, rest⟩
  else if hugeExponent < size + e * (base.log2 + 1) ∧ hugeExponent < size + e * base.log2 then
    ⟨infinite negative, true, rest⟩
  else if size + e * (base.log2 + 1) < -hugeExponent ∧ size + e * base.log2 < -hugeExponent then
    ⟨finite negative 0 minExponent, true, rest⟩
  else match e with
    | .ofNat e => roundReading negative (n * Nat.pow base e) 1 rest
    | .negSucc e => roundReading negative n (Nat.pow base (e + 1)) rest

/-- An exponent behind one of the letters, if digits follow it; else zero and all of the
    text. -/
def exponent (letters : List Char) (t : Text) : Int × Text :=
  match t with
  | [] => (0, t)
  | b :: after =>
    if (letters.map Text.byte).contains b then
      let (negative, after) := Numeral.sign after
      let (n, count, rest) := Numeral.digits Numeral.digit? 10 0 0 after
      if count = 0 then (0, t) else (if negative then -n else n, rest)
    else (0, t)

/-- Digits with at most one point: their value without the point, the number of digits,
    the number of digits behind the point, and the rest. -/
def pointedDigits (value? : UInt8 → Option Nat) (base : Nat) (t : Text) :
    Nat × Nat × Nat × Text :=
  let (n, whole, rest) := Numeral.digits value? base 0 0 t
  match rest with
  | b :: after =>
    if b = Text.byte '.' then
      let (n, count, rest') := Numeral.digits value? base n whole after
      if count = 0 then (n, 0, 0, rest) else (n, count, count - whole, rest')
    else (n, whole, 0, rest)
  | [] => (n, whole, 0, [])

/-- A decimal number. -/
def readDecimal? (negative : Bool) (t : Text) : Option Reading :=
  let (n, count, places, rest) := pointedDigits Numeral.digit? 10 t
  if count = 0 then none
  else
    let (e, rest) := exponent ['e', 'E'] rest
    some (ofPower negative n 10 (e - places) rest)

/-- A hexadecimal number behind its `0x`. -/
def readHex? (negative : Bool) (t : Text) : Option Reading :=
  let (n, count, places, rest) := pointedDigits Numeral.hexDigit? 16 t
  if count = 0 then none
  else
    let (e, rest) := exponent ['p', 'P'] rest
    some (ofPower negative n 2 (e - 4 * places) rest)

/-- What follows a word at the beginning, in any case. -/
def afterWord? (word t : Text) : Option Text :=
  if Text.toLower (t.take word.length) == word then some (t.drop word.length) else none

/-- What may follow `nan` in parentheses. -/
def afterPayload (t : Text) : Text :=
  match t with
  | [] => t
  | b :: after =>
    if b = Text.byte '(' then
      let rest := after.dropWhile fun b =>
        (Numeral.digit? b).isSome || b == Text.byte '_' ||
          (Text.byte 'a' ≤ b && b ≤ Text.byte 'z') || (Text.byte 'A' ≤ b && b ≤ Text.byte 'Z')
      match rest with
      | c :: rest => if c = Text.byte ')' then rest else t
      | [] => t
    else t

/-- The number at the beginning of a text. -/
def read? (t : Text) : Option Reading :=
  let (negative, t) := Numeral.sign (t.dropWhile Numeral.isBlank)
  match afterWord? "infinity" t, afterWord? "inf" t, afterWord? "nan" t with
  | some rest, _, _ | none, some rest, _ => some ⟨infinite negative, false, rest⟩
  | none, none, some rest => some ⟨nan negative, false, afterPayload rest⟩
  | none, none, none =>
    match (afterWord? "0x" t).bind (readHex? negative) with
    | some r => some r
    | none => readDecimal? negative t

end Rebuild.Binary64
