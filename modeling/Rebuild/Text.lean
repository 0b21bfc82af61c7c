/-
  Byte strings, and the sorted sets and maps keyed by them.

  Names, paths, fingerprints and messages are byte strings: nothing in a build
  promises that they are valid in any encoding.  `Text` orders them byte by byte,
  a proper beginning first.

  * `TextSet` and `TextMap` are ordered containers with extensional equality: two
    of them with the same members are equal, and they list their members in the
    order of `Text`;
  * `split` cuts a text at every separator, `trim` removes blanks at both ends;
  * `ofNat`, `ofInt` and `hex` write numbers.
-/
import Std.Data.ExtTreeMap
import Std.Data.ExtTreeSet

namespace Rebuild

/-- A byte string. -/
abbrev Text := List UInt8

/-- A set of texts, listed in byte order. -/
abbrev TextSet := Std.ExtTreeSet Text

/-- A map from texts, listed in the byte order of its keys. -/
abbrev TextMap (α : Type) := Std.ExtTreeMap Text α

namespace Text

/-- The bytes of a literal. -/
def ofString (s : String) : Text := s.toUTF8.data.toList

instance : Coe String Text := ⟨ofString⟩

/-- The byte of an ASCII character. -/
def byte (c : Char) : UInt8 := c.toUInt8

/-! ## Numbers -/

/-- The decimal digits of `n`, without leading zeros. -/
def ofNat (n : Nat) : Text := (Nat.toDigits 10 n).map byte

/-- The decimal digits of `i`, after a minus sign when it is negative. -/
def ofInt : Int → Text
  | .ofNat n => ofNat n
  | .negSucc n => byte '-' :: ofNat (n + 1)

/-- The lowercase hexadecimal digit of `n % 16`. -/
def hexDigit (n : Nat) : UInt8 :=
  if n % 16 < 10 then byte '0' + UInt8.ofNat (n % 16) else byte 'a' + UInt8.ofNat (n % 16 - 10)

/-- The last `width` hexadecimal digits of `n`, the most significant first. -/
def hex : Nat → Nat → Text
  | 0, _ => []
  | width + 1, n => hex width (n / 16) ++ [hexDigit n]

/-- Two hexadecimal digits for each byte. -/
def hexBytes (t : Text) : Text := t.flatMap fun b => hex 2 b.toNat

/-! ## Cutting and trimming -/

/-- The parts of `t` between the separators `sep`: always one more than there are
    separators, so the empty text has one empty part. -/
def split (sep : UInt8) : Text → List Text
  | [] => [[]]
  | b :: t =>
    match split sep t with
    | [] => [[b]]
    | part :: parts => if b = sep then [] :: part :: parts else (b :: part) :: parts

/-- The parts one after the other, `sep` between neighbours. -/
def join (sep : Text) : List Text → Text
  | [] => []
  | [t] => t
  | t :: ts => t ++ sep ++ join sep ts

/-- What precedes the first `sep`, and what follows it if there is one. -/
def cut (sep : UInt8) : Text → Text × Option Text
  | [] => ([], none)
  | b :: t => if b = sep then ([], some t) else
    let (before, after) := cut sep t
    (b :: before, after)

/-- `t` without the longest end whose bytes satisfy `p`. -/
def dropEndWhile (p : UInt8 → Bool) (t : Text) : Text := (t.reverse.dropWhile p).reverse

/-- The rest of `t` after the beginning `pre`, if it begins so. -/
def after? (pre t : Text) : Option Text :=
  if pre.isPrefixOf t then some (t.drop pre.length) else none

/-- Whether `t` ends with `ending`. -/
def endsWith (t ending : Text) : Bool := ending.isSuffixOf t

/-- ASCII capitals become small letters; every other byte stays. -/
def toLower (t : Text) : Text :=
  t.map fun b => if byte 'A' ≤ b ∧ b ≤ byte 'Z' then b + 32 else b

/-- `t` followed by blanks up to `width` bytes. -/
def padEnd (width : Nat) (t : Text) : Text := t ++ List.replicate (width - t.length) (byte ' ')

/-- Whether `t` has at least `n` bytes; looks at no more than `n` of them. -/
def hasAtLeast : Nat → Text → Bool
  | 0, _ => true
  | _ + 1, [] => false
  | n + 1, _ :: t => hasAtLeast n t

@[simp] theorem hasAtLeast_iff (n : Nat) (t : Text) : hasAtLeast n t = true ↔ n ≤ t.length := by
  induction n generalizing t with
  | zero => simp [hasAtLeast]
  | succ n ih => cases t <;> simp [hasAtLeast, ih]

theorem split_ne_nil (sep : UInt8) (t : Text) : split sep t ≠ [] := by
  cases t with
  | nil => simp [split]
  | cons b t =>
    simp only [split]
    split
    · simp
    · split <;> simp

/-- Joining the parts with the separator gives the text back. -/
theorem join_split (sep : UInt8) (t : Text) : join [sep] (split sep t) = t := by
  induction t with
  | nil => rfl
  | cons b t ih =>
    simp only [split]
    split
    · next h => exact absurd h (split_ne_nil sep t)
    · next part parts h =>
      rw [h] at ih
      split
      · next hb => subst hb; rw [← ih]; simp [join]
      · rw [← ih]
        cases parts <;> simp [join]

end Text

/-- The texts of a list as a set. -/
abbrev TextSet.ofTexts (ts : List Text) : TextSet := Std.ExtTreeSet.ofList ts

end Rebuild
