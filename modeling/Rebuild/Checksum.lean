/-
  CRC-32C, the checksum of analysis records and of root sets.

  * `Checksum.shift` takes one bit out of the register and `Checksum.bitwise` is the
    checksum defined by it, a bit at a time;
  * `Checksum.extend` is the checksum a byte at a time from a table of 256 words;
  * a checksum is continued over more bytes by `extend`, starting from 0.
-/
import Rebuild.Text

namespace Rebuild.Checksum

/-- The Castagnoli polynomial, its bits reversed. -/
def polynomial : UInt32 := 0x82F63B78

/-- One bit out of the register: the polynomial is taken when the bit is set. -/
def shift (crc : UInt32) : UInt32 :=
  if crc &&& 1 = 1 then (crc >>> 1) ^^^ polynomial else crc >>> 1

/-- `n` bits out of the register. -/
def shifts : Nat → UInt32 → UInt32
  | 0, crc => crc
  | n + 1, crc => shifts n (shift crc)

/-! ## A bit at a time -/

/-- The register after one more byte, its eight bits taken out one by one. -/
def stepBits (crc : UInt32) (b : UInt8) : UInt32 := shifts 8 (crc ^^^ b.toUInt32)

/-- The checksum by definition: complemented at both ends. -/
def bitwise (previous : UInt32) (t : Text) : UInt32 := ~~~(t.foldl stepBits (~~~previous))

/-! ## A byte at a time -/

/-- Eight bits out of every byte value. -/
def table : Array UInt32 := Array.ofFn fun i : Fin 256 => shifts 8 (UInt32.ofNat i.val)

@[simp] theorem size_table : table.size = 256 := by simp [table]

/-- The entry of the table for the low byte of a word. -/
def entry (w : UInt32) : UInt32 := table.getD (w &&& 0xFF).toNat 0

/-- The register after one more byte, by one look into the table. -/
def step (crc : UInt32) (b : UInt8) : UInt32 := entry (crc ^^^ b.toUInt32) ^^^ (crc >>> 8)

/-- Continues the checksum `previous` over `t`. -/
def extend (previous : UInt32) (t : Text) : UInt32 :=
  t.foldl step (previous ^^^ 0xFFFFFFFF) ^^^ 0xFFFFFFFF

/-- The checksum of `t`. -/
def ofText (t : Text) : UInt32 := extend 0 t

/-- A checksum as eight hexadecimal digits. -/
def hex (crc : UInt32) : Text := Text.hex 8 crc.toNat

end Rebuild.Checksum
