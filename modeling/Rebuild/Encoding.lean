/-
  The byte layout shared by the analysis record and the worker messages:
  little-endian words, and texts and lists behind a 32-bit count.

  * `leBytes` and `leValue` turn numbers into bytes and back; `leValue_leBytes` and
    `leBytes_leValue` say that they are inverse to each other on a fixed width;
  * `Encode` holds one function per kind of value.
-/
import Rebuild.Text

namespace Rebuild

/-- The `width` lowest bytes of `n`, the lowest first. -/
def leBytes : Nat → Nat → Text
  | 0, _ => []
  | width + 1, n => UInt8.ofNat n :: leBytes width (n / 256)

/-- The number whose bytes are `t`, the lowest first. -/
def leValue : Text → Nat
  | [] => 0
  | b :: t => b.toNat + 256 * leValue t

@[simp] theorem length_leBytes (width n : Nat) : (leBytes width n).length = width := by
  induction width generalizing n with
  | zero => rfl
  | succ width ih => simp [leBytes, ih]

/-- A number survives its bytes up to the width written. -/
theorem leValue_leBytes (width n : Nat) : leValue (leBytes width n) = n % Nat.pow 256 width := by
  rw [Nat.pow_eq]
  induction width generalizing n with
  | zero => simp [leBytes, leValue, Nat.mod_one]
  | succ width ih =>
    have h : n % 256 ^ (width + 1) = n % 256 + 256 * (n / 256 % 256 ^ width) := by
      rw [show 256 ^ (width + 1) = 256 * 256 ^ width by rw [Nat.pow_succ, Nat.mul_comm],
        Nat.mod_mul]
    simp only [leBytes, leValue, ih, UInt8.toNat_ofNat', h]

/-- Bytes survive the number they denote. -/
theorem leBytes_leValue (t : Text) : leBytes t.length (leValue t) = t := by
  induction t with
  | nil => rfl
  | cons b t ih =>
    have hb : b.toNat < 256 := b.toNat_lt
    have hd : (b.toNat + 256 * leValue t) / 256 = leValue t := by omega
    have hm : UInt8.ofNat (b.toNat + 256 * leValue t) = b := by
      apply UInt8.toNat_inj.mp
      rw [UInt8.toNat_ofNat']
      omega
    simp only [List.length_cons, leBytes, leValue, hd, hm, ih]

theorem leValue_lt (t : Text) : leValue t < Nat.pow 256 t.length := by
  rw [Nat.pow_eq]
  induction t with
  | nil => simp [leValue]
  | cons b t ih =>
    have hb : b.toNat < 256 := b.toNat_lt
    simp only [leValue, List.length_cons, Nat.pow_succ]
    omega

/-- The largest text that a reader accepts: 64 MiB. -/
def maxEncodedText : Nat := 64 * 1024 * 1024

namespace Encode

/-- One byte. -/
def u8 (v : UInt8) : Text := [v]

/-- Two bytes, the low one first. -/
def u16 (v : UInt16) : Text := leBytes 2 v.toNat

/-- Four bytes, the lowest first. -/
def u32 (v : UInt32) : Text := leBytes 4 v.toNat

/-- Eight bytes, the lowest first. -/
def u64 (v : UInt64) : Text := leBytes 8 v.toNat

/-- A signed word by its two's complement. -/
def i64 (v : Int64) : Text := u64 v.toUInt64

/-- One byte, 0 or 1. -/
def bool (v : Bool) : Text := u8 (if v then 1 else 0)

/-- A count, wrapped to 32 bits. -/
def count (n : Nat) : Text := u32 (UInt32.ofNat n)

/-- The length, then the bytes. -/
def text (t : Text) : Text := count t.length ++ t

/-- The number of items, then the items. -/
def list {α : Type} (item : α → Text) (xs : List α) : Text := count xs.length ++ xs.flatMap item

/-- The number of texts, then the texts in order. -/
def texts (ts : List Text) : Text := list text ts

/-- The number of texts, then the texts in byte order. -/
def textSet (s : TextSet) : Text := texts s.toList

end Encode

end Rebuild
