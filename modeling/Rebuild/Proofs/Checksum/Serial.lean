/-
  The checksum is what its definition says, one bit after the other.

  `Checksum.serial` knows neither bytes nor a table: it takes the bits of a text in turn, the lowest
  of each byte first, into a register that moves down by one place for each of them.

  * `foldl_feed`: the bits of a number go into the register as if they had been added to it before;
  * `bitwise_eq_serial` and `extend_eq_bitwise`: so do the bits of a byte, and the table has for
    every byte what eight bits make of it.

  `Checksum.extend_exact` adds that a checksum may be continued wherever a text is cut.
-/
import Rebuild.Proofs.Checksum

namespace Rebuild.Checksum

/-! ## The definition -/

/-- The bits of a text, the lowest of each byte first. -/
def bits (t : Text) : List Bool := t.flatMap fun b => (List.range 8).map b.toNat.testBit

/-- One more bit: the register moves down, and takes the polynomial when the bit that falls out
    differs from the one that comes in. -/
def feed (crc : UInt32) (bit : Bool) : UInt32 :=
  if crc.toNat.testBit 0 != bit then (crc >>> 1) ^^^ polynomial else crc >>> 1

/-- The checksum over the bits of a text, complemented at both ends. -/
def serial (previous : UInt32) (t : Text) : UInt32 := ~~~((bits t).foldl feed (~~~previous))

/-! ## Bits and bytes -/

/-- A bit that comes in counts like one that was in the register before. -/
theorem shift_xor_ofNat (crc : UInt32) {m : Nat} (h : m < 2 ^ 32) :
    shift (crc ^^^ UInt32.ofNat m) = feed crc (m.testBit 0) ^^^ UInt32.ofNat (m / 2) := by
  have hm : (UInt32.ofNat m).toNat = m := UInt32.toNat_ofNat_of_lt' h
  have hhalf : UInt32.ofNat m >>> 1 = UInt32.ofNat (m / 2) := by
    apply UInt32.toNat_inj.1
    rw [toNat_half, hm, UInt32.toNat_ofNat_of_lt' (show m / 2 < 2 ^ 32 by omega)]
  simp only [shift, feed, and_one_eq_one_iff, UInt32.toNat_xor, Nat.testBit_xor, hm,
    UInt32.shiftRight_xor, hhalf]
  split
  · ac_rfl
  · rfl

/-- **The bits of a number** go into the register as if the number had been added to it. -/
theorem foldl_feed {n m : Nat} (hn : n ≤ 32) (hm : m < 2 ^ n) (crc : UInt32) :
    ((List.range n).map m.testBit).foldl feed crc = shifts n (crc ^^^ UInt32.ofNat m) := by
  induction n generalizing m crc with
  | zero =>
    obtain rfl : m = 0 := by omega
    exact UInt32.xor_zero.symm
  | succ n ih =>
    have hm' : m / 2 < 2 ^ n := by
      rw [Nat.pow_succ'] at hm
      omega
    have hlt : m < 2 ^ 32 := Nat.lt_of_lt_of_le hm (Nat.pow_le_pow_right (by decide) hn)
    rw [List.range_succ_eq_map, List.map_cons, List.map_map, List.foldl_cons, shifts,
      shift_xor_ofNat crc hlt, ← ih (by omega) hm']
    simp only [Function.comp_def, Nat.succ_eq_add_one, Nat.testBit_succ]

theorem foldl_feed_byte (crc : UInt32) (b : UInt8) :
    ((List.range 8).map b.toNat.testBit).foldl feed crc = stepBits crc b := by
  rw [foldl_feed (by decide) b.toNat_lt, stepBits, UInt32.ofNat_uInt8ToNat]

/-! ## Texts -/

theorem bitwise_eq_serial (previous : UInt32) (t : Text) :
    bitwise previous t = serial previous t := by
  rw [bitwise, serial, bits, List.foldl_flatMap]
  simp only [foldl_feed_byte]

theorem extend_eq_bitwise (previous : UInt32) (t : Text) :
    extend previous t = bitwise previous t := by
  have hones : (0xFFFFFFFF : UInt32) = -1 := rfl
  rw [extend, bitwise, foldl_step_eq, hones, UInt32.xor_neg_one, UInt32.xor_neg_one]

theorem bitwise_append (previous : UInt32) (a b : Text) :
    bitwise (bitwise previous a) b = bitwise previous (a ++ b) := by
  rw [bitwise, bitwise, bitwise, UInt32.not_not, List.foldl_append]

/-- **The table computes the checksum.**  Whatever it is continued from, the checksum of a text is
    the one that takes its bytes eight bits at a time and the one that takes its bits in turn; and
    it may be continued from the checksum of any beginning of the text. -/
theorem extend_exact (previous : UInt32) :
    (∀ t, extend previous t = bitwise previous t ∧ extend previous t = serial previous t) ∧
      ∀ a b, extend (extend previous a) b = extend previous (a ++ b) := by
  refine ⟨fun t => ?_, fun a b => ?_⟩
  · have h := extend_eq_bitwise previous t
    exact ⟨h, h.trans (bitwise_eq_serial previous t)⟩
  · rw [extend_eq_bitwise, extend_eq_bitwise, extend_eq_bitwise, bitwise_append]

/-- The check value of the polynomial. -/
example : serial 0 "123456789" = 0xE3069283 := by decide +kernel

end Rebuild.Checksum
