/-
  Values of the byte layout as data: sequences of fields of any kinds can be
  written one after the other and read back by their kinds.

  * `Field.encode` writes a field, `Kind.decode` reads one of a given kind.
-/
import Rebuild.Encoding.Decoder

namespace Rebuild

/-- The kinds of value that the layout knows. -/
inductive Kind
  | u8 | u16 | u32 | u64 | i64 | bool | text | texts | textSet
deriving DecidableEq, Repr

/-- A value of one of the kinds. -/
inductive Field
  | u8 (v : UInt8)
  | u16 (v : UInt16)
  | u32 (v : UInt32)
  | u64 (v : UInt64)
  | i64 (v : Int64)
  | bool (v : Bool)
  | text (v : Text)
  | texts (v : List Text)
  | textSet (v : TextSet)

namespace Field

/-- The kind of a field. -/
def kind : Field → Kind
  | u8 _ => .u8
  | u16 _ => .u16
  | u32 _ => .u32
  | u64 _ => .u64
  | i64 _ => .i64
  | bool _ => .bool
  | text _ => .text
  | texts _ => .texts
  | textSet _ => .textSet

/-- The bytes of a field. -/
def encode : Field → Text
  | u8 v => Encode.u8 v
  | u16 v => Encode.u16 v
  | u32 v => Encode.u32 v
  | u64 v => Encode.u64 v
  | i64 v => Encode.i64 v
  | bool v => Encode.bool v
  | text v => Encode.text v
  | texts v => Encode.texts v
  | textSet v => Encode.textSet v

end Field

/-- Reads a field of the kind. -/
def Kind.decode : Kind → Decoder Field
  | u8 => do return .u8 (← Decoder.u8)
  | u16 => do return .u16 (← Decoder.u16)
  | u32 => do return .u32 (← Decoder.u32)
  | u64 => do return .u64 (← Decoder.u64)
  | i64 => do return .i64 (← Decoder.i64)
  | bool => do return .bool (← Decoder.bool)
  | text => do return .text (← Decoder.text)
  | texts => do return .texts (← Decoder.texts)
  | textSet => do return .textSet (← Decoder.textSet)

/-- Reads fields of the kinds one after the other, the later ones also when an
    earlier one failed; gives what each read found and the reader after it. -/
def Kind.decodeEach : List Kind → Reader → List (Option Field × Reader)
  | [], _ => []
  | k :: ks, r => k.decode r :: Kind.decodeEach ks (k.decode r).2

end Rebuild
