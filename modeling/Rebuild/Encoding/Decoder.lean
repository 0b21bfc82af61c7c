/-
  Decoders of the byte layout.

  A `Reader` walks over a byte string; a `Decoder` reads one value from it or fails.
  A failed read leaves the reader failed for good, and a read that fails half-way
  keeps what it had already consumed.

  * `Decoder.take` is the only primitive that moves the reader;
  * `Reader.atEnd` says that everything was consumed and nothing failed;
  * `Decoder.exactly` runs a decoder over a whole byte string.
-/
import Rebuild.Encoding

namespace Rebuild

/-- A position in a byte string.  Once `ok` is false nothing can be read any more. -/
structure Reader where
  /-- Number of bytes consumed so far. -/
  pos : Nat
  /-- The bytes that are left. -/
  rest : Text
  /-- False after a failed read. -/
  ok : Bool
deriving DecidableEq, Repr

namespace Reader

/-- A reader at the beginning of `t`. -/
def start (t : Text) : Reader := ⟨0, t, true⟩

/-- Everything was consumed and no read failed. -/
def atEnd (r : Reader) : Bool := r.ok && r.rest.isEmpty

/-- The number of bytes left. -/
def remaining (r : Reader) : Nat := r.rest.length

end Reader

/-- Reads one value, or fails and leaves the reader failed. -/
def Decoder (α : Type) : Type := Reader → Option α × Reader

namespace Decoder

variable {α β : Type}

/-- Reads nothing. -/
def pure (a : α) : Decoder α := fun r => (some a, r)

/-- Goes on with `f` after a successful read, and stops at a failed one. -/
def bind (d : Decoder α) (f : α → Decoder β) : Decoder β := fun r =>
  match d r with
  | (some a, r') => f a r'
  | (none, r') => (none, r')

instance : Monad Decoder where
  pure := Decoder.pure
  bind := Decoder.bind

/-- Fails without reading. -/
def fail : Decoder α := fun r => (none, { r with ok := false })

/-- Fails unless `p` holds. -/
def guard (p : Bool) : Decoder Unit := if p then pure () else fail

/-- The next `n` bytes; fails, and consumes nothing, if there are fewer. -/
def take (n : Nat) : Decoder Text := fun r =>
  if r.ok && r.rest.hasAtLeast n then
    (some (r.rest.take n), { r with pos := r.pos + n, rest := r.rest.drop n })
  else (none, { r with ok := false })

/-- Whether at least `n` bytes are left. -/
def hasAtLeast (n : Nat) : Decoder Bool := fun r => (some (r.rest.hasAtLeast n), r)

/-- The number written in the next `width` bytes. -/
def word (width : Nat) : Decoder Nat := do return leValue (← take width)

/-- One byte. -/
def u8 : Decoder UInt8 := do return UInt8.ofNat (← word 1)

/-- Two bytes, the low one first. -/
def u16 : Decoder UInt16 := do return UInt16.ofNat (← word 2)

/-- Four bytes, the lowest first. -/
def u32 : Decoder UInt32 := do return UInt32.ofNat (← word 4)

/-- Eight bytes, the lowest first. -/
def u64 : Decoder UInt64 := do return UInt64.ofNat (← word 8)

/-- A signed word in two's complement. -/
def i64 : Decoder Int64 := do return (← u64).toInt64

/-- One byte that is 0 or 1; any other byte is consumed and then refused. -/
def bool : Decoder Bool := do
  let b ← u8
  guard (b ≤ 1)
  return b == 1

/-- A length and as many bytes.  Refuses a length above `maxEncodedText` or above
    what is left. -/
def text : Decoder Text := do
  let n := (← u32).toNat
  guard (n ≤ maxEncodedText)
  take n

/-- `n` values, one after the other. -/
def times (item : Decoder α) : Nat → Decoder (List α)
  | 0 => return []
  | n + 1 => do
    let a ← item
    let as ← times item n
    return a :: as

/-- A count and as many values.  Refuses a count for which the bytes left cannot
    suffice when each value takes at least `least` of them. -/
def list (least : Nat) (item : Decoder α) : Decoder (List α) := do
  let n := (← u32).toNat
  guard (← hasAtLeast (least * n))
  times item n

/-- A count and as many texts, each at least its four-byte length. -/
def texts : Decoder (List Text) := list 4 text

/-- Texts in any order, with or without repeats. -/
def textSet : Decoder TextSet := do return TextSet.ofTexts (← texts)

/-- The value of `d` on all of `t`: fails if bytes are left over. -/
def exactly (d : Decoder α) (t : Text) : Option α :=
  match d (Reader.start t) with
  | (some a, r) => if r.atEnd then some a else none
  | (none, _) => none

end Decoder

end Rebuild
