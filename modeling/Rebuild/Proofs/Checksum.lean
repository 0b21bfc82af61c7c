/-
  What the checksum does not overlook.

  A shift of the register is linear in exclusive or (`shift_xor`) and loses nothing
  (`shift_injective`).  So the table gives what eight shifts give (`step_eq_stepBits`), texts that
  differ go on differing over every text behind them (`foldl_stepBits_injective`), and up to four
  bytes reach the register whole (`foldl_stepBits_eq`).

  `ofText_window`: texts of one checksum that are equal outside of four neighbouring bytes are
  equal.
-/
import Mathlib.Algebra.Group.Nat.Defs
import Mathlib.Tactic.Common
import Rebuild.Checksum
import Rebuild.Encoding

namespace Rebuild.Checksum

/-! ## One bit -/

theorem and_one_eq_one_iff (a : UInt32) : a &&& 1 = 1 ↔ a.toNat.testBit 0 = true := by
  rw [← UInt32.toNat_inj, UInt32.toNat_and, UInt32.toNat_one, Nat.and_one_is_mod,
    Nat.testBit_zero, decide_eq_true_iff]

theorem toNat_half (a : UInt32) : (a >>> 1).toNat = a.toNat / 2 := by
  rw [UInt32.toNat_shiftRight, Nat.shiftRight_eq_div_pow]
  rfl

theorem shift_xor (a b : UInt32) : shift (a ^^^ b) = shift a ^^^ shift b := by
  simp only [shift, and_one_eq_one_iff, UInt32.toNat_xor, Nat.testBit_xor, UInt32.shiftRight_xor]
  cases a.toNat.testBit 0 <;> cases b.toNat.testBit 0
  · rfl
  · simp only [Bool.false_bne, if_true, Bool.false_eq_true, if_false]
    ac_rfl
  · simp only [Bool.bne_false, if_true, Bool.false_eq_true, if_false]
    ac_rfl
  · -- the polynomial is taken on both sides and drops out
    have h : (a >>> 1 ^^^ polynomial) ^^^ (b >>> 1 ^^^ polynomial) =
        (a >>> 1 ^^^ b >>> 1) ^^^ (polynomial ^^^ polynomial) := by ac_rfl
    rw [UInt32.xor_self, UInt32.xor_zero] at h
    simpa using h.symm

/-- The polynomial has the highest bit, which a word that was moved down has not. -/
theorem shift_eq_zero {a : UInt32} (h : shift a = 0) : a = 0 := by
  have hhalf := toNat_half a
  have hlt : a.toNat < 2 ^ 32 := a.toNat_lt
  unfold shift at h
  split at h
  · next hodd =>
    have heq : a >>> 1 = polynomial := UInt32.xor_eq_zero_iff.1 h
    rw [heq] at hhalf
    have : polynomial.toNat = 0x82F63B78 := rfl
    omega
  · next heven =>
    rw [and_one_eq_one_iff, Nat.testBit_zero, decide_eq_true_iff] at heven
    rw [h] at hhalf
    have : (0 : UInt32).toNat = 0 := rfl
    exact UInt32.toNat_inj.1 (by omega)

theorem shift_injective : Function.Injective shift := by
  intro a b h
  refine UInt32.xor_eq_zero_iff.1 (shift_eq_zero ?_)
  rw [shift_xor, h, UInt32.xor_self]

/-- An even number is halved. -/
theorem shift_ofNat {m : Nat} (h : 2 * m < 2 ^ 32) :
    shift (UInt32.ofNat (2 * m)) = UInt32.ofNat m := by
  have hm : (UInt32.ofNat (2 * m)).toNat = 2 * m := UInt32.toNat_ofNat_of_lt' h
  have heven : ¬ UInt32.ofNat (2 * m) &&& 1 = 1 := by
    rw [and_one_eq_one_iff, hm, Nat.testBit_zero, decide_eq_true_iff]
    omega
  rw [shift, if_neg heven]
  apply UInt32.toNat_inj.1
  rw [toNat_half, hm, UInt32.toNat_ofNat_of_lt' (show m < 2 ^ 32 by omega)]
  omega

/-! ## Several bits -/

theorem shifts_xor (n : Nat) (a b : UInt32) : shifts n (a ^^^ b) = shifts n a ^^^ shifts n b := by
  induction n generalizing a b with
  | zero => rfl
  | succ n ih => rw [shifts, shifts, shifts, shift_xor, ih]

theorem shifts_injective (n : Nat) : Function.Injective (shifts n) := by
  induction n with
  | zero => exact fun _ _ h => h
  | succ n ih => exact ih.comp shift_injective

theorem shifts_add (m n : Nat) (a : UInt32) : shifts (m + n) a = shifts n (shifts m a) := by
  induction m generalizing a with
  | zero => rw [Nat.zero_add, shifts]
  | succ m ih => rw [Nat.succ_add, shifts, ih, shifts]

/-- What stands above the bits that are taken out moves down. -/
theorem shifts_ofNat (n : Nat) {m : Nat} (h : 2 ^ n * m < 2 ^ 32) :
    shifts n (UInt32.ofNat (2 ^ n * m)) = UInt32.ofNat m := by
  induction n with
  | zero => rw [Nat.pow_zero, Nat.one_mul, shifts]
  | succ n ih =>
    rw [Nat.pow_succ', Nat.mul_assoc] at h ⊢
    rw [shifts, shift_ofNat h, ih (by omega)]

/-! ## One byte -/

/-- A number below and one above the eighth bit, side by side in a word. -/
theorem ofNat_add {b : Nat} (hb : b < 2 ^ 8) (v : Nat) :
    UInt32.ofNat (b + 2 ^ 8 * v) = UInt32.ofNat b ^^^ UInt32.ofNat (2 ^ 8 * v) := by
  rw [← UInt32.ofNat_xor]
  congr 1
  apply Nat.eq_of_testBit_eq
  intro i
  rw [Nat.add_comm, Nat.testBit_two_pow_mul_add v hb, Nat.testBit_xor, Nat.testBit_two_pow_mul]
  split
  · next h => simp [Nat.not_le.2 h]
  · next h =>
    have hlt : b < 2 ^ i := Nat.lt_of_lt_of_le hb (Nat.pow_le_pow_right (by decide) (by omega))
    simp [Nat.not_lt.1 h, Nat.testBit_lt_two_pow hlt]

/-- Eight bits of a word go through the register, the others move down. -/
theorem shifts_eight (x : UInt32) :
    shifts 8 x = shifts 8 (UInt32.ofNat (x.toNat % 2 ^ 8)) ^^^ UInt32.ofNat (x.toNat / 2 ^ 8) := by
  have hlt : x.toNat < 2 ^ 32 := x.toNat_lt
  have hx : x = UInt32.ofNat (x.toNat % 2 ^ 8) ^^^ UInt32.ofNat (2 ^ 8 * (x.toNat / 2 ^ 8)) := by
    rw [← ofNat_add (Nat.mod_lt _ (by decide)), Nat.mod_add_div, UInt32.ofNat_toNat]
  conv => lhs; rw [hx]
  rw [shifts_xor, shifts_ofNat 8 (by omega)]

theorem entry_eq (w : UInt32) : entry w = shifts 8 (UInt32.ofNat (w.toNat % 2 ^ 8)) := by
  have hlow : (w &&& 0xFF).toNat = w.toNat % 2 ^ 8 := by
    rw [UInt32.toNat_and]
    exact Nat.and_two_pow_sub_one_eq_mod w.toNat 8
  have hlt : (w &&& 0xFF).toNat < table.size := by
    rw [hlow, size_table]
    exact Nat.mod_lt _ (by decide)
  rw [entry, Array.getD_eq_getD_getElem?, Array.getElem?_eq_getElem hlt, Option.getD_some]
  simp only [table, Array.getElem_ofFn, hlow]

/-- **The table gives what eight shifts give.** -/
theorem step_eq_stepBits (crc : UInt32) (b : UInt8) : step crc b = stepBits crc b := by
  have hb : b.toNat / 2 ^ 8 = 0 := Nat.div_eq_of_lt b.toNat_lt
  have hhigh : crc >>> 8 = UInt32.ofNat ((crc ^^^ b.toUInt32).toNat / 2 ^ 8) := by
    rw [UInt32.toNat_xor, Nat.xor_div_two_pow, UInt8.toNat_toUInt32, hb, Nat.xor_zero]
    apply UInt32.toNat_inj.1
    rw [UInt32.toNat_shiftRight, Nat.shiftRight_eq_div_pow, UInt32.toNat_ofNat_of_lt']
    · rfl
    · exact Nat.lt_of_le_of_lt (Nat.div_le_self _ _) crc.toNat_lt
  rw [step, stepBits, shifts_eight, entry_eq, hhigh]

theorem foldl_step_eq (t : Text) (crc : UInt32) : t.foldl step crc = t.foldl stepBits crc := by
  rw [show step = stepBits from funext₂ step_eq_stepBits]

/-! ## Texts -/

/-- Registers that differ go on differing, whatever comes behind. -/
theorem foldl_stepBits_injective (t : Text) : Function.Injective fun crc => t.foldl stepBits crc := by
  induction t with
  | nil => exact fun _ _ h => h
  | cons b t ih =>
    intro x y h
    exact (UInt32.xor_left_inj b.toUInt32).1 (shifts_injective 8 (ih h))

/-- **Up to four bytes reach the register whole.** -/
theorem foldl_stepBits_eq {w : Text} (hw : w.length ≤ 4) (crc : UInt32) :
    w.foldl stepBits crc = shifts (8 * w.length) (crc ^^^ UInt32.ofNat (leValue w)) := by
  induction w generalizing crc with
  | nil => exact UInt32.xor_zero.symm
  | cons b w ih =>
    rw [List.length_cons] at hw
    -- the bytes behind `b` are still to come when it is taken out, so they stand above it
    have hlt : 2 ^ 8 * leValue w < 2 ^ 32 := by
      have h := leValue_lt w
      have hpow : 256 ^ w.length ≤ 256 ^ 3 := Nat.pow_le_pow_right (by decide) (by omega)
      rw [Nat.pow_eq] at h
      omega
    have hb : UInt32.ofNat (leValue (b :: w)) =
        b.toUInt32 ^^^ UInt32.ofNat (2 ^ 8 * leValue w) := by
      show UInt32.ofNat (b.toNat + 2 ^ 8 * leValue w) = _
      rw [ofNat_add b.toNat_lt, UInt32.ofNat_uInt8ToNat]
    rw [List.foldl_cons, ih (by omega), stepBits, ← shifts_ofNat 8 hlt, ← shifts_xor, hb,
      ← UInt32.xor_assoc, List.length_cons, Nat.mul_succ, Nat.add_comm, shifts_add]

theorem foldl_stepBits_window {w w' : Text} (hlength : w.length = w'.length) (hw : w.length ≤ 4)
    {crc : UInt32} (h : w.foldl stepBits crc = w'.foldl stepBits crc) : w = w' := by
  have bound (t : Text) (ht : t.length ≤ 4) : leValue t < 2 ^ 32 := by
    have hlt := leValue_lt t
    have hpow : 256 ^ t.length ≤ 256 ^ 4 := Nat.pow_le_pow_right (by decide) ht
    rw [Nat.pow_eq] at hlt
    omega
  rw [foldl_stepBits_eq hw, foldl_stepBits_eq (hlength ▸ hw), ← hlength] at h
  have hvalue := congrArg UInt32.toNat ((UInt32.xor_right_inj crc).1 (shifts_injective _ h))
  rw [UInt32.toNat_ofNat_of_lt' (bound w hw), UInt32.toNat_ofNat_of_lt' (bound w' (hlength ▸ hw))]
    at hvalue
  rw [← leBytes_leValue w, ← leBytes_leValue w', hlength, hvalue]

/-- **A change within four neighbouring bytes changes the checksum.** -/
theorem ofText_window {front w w' back : Text} (hlength : w.length = w'.length)
    (hw : w.length ≤ 4) (h : ofText (front ++ w ++ back) = ofText (front ++ w' ++ back)) :
    w = w' := by
  have hfold := (UInt32.xor_left_inj _).1 h
  simp only [foldl_step_eq, List.foldl_append] at hfold
  exact foldl_stepBits_window hlength hw (foldl_stepBits_injective back hfold)

end Rebuild.Checksum
