/-
  Numerals that are written are read.

  * `Numeral.Spells`: all of a text is a numeral, with this sign and this magnitude;
  * `Numeral.read?_eq_some_iff`: the texts that are read to their end are these;
  * `Numeral.read?_ofNat`: the decimal digits of a number are a numeral for it.
-/
import Mathlib.Data.List.TakeWhile
import Mathlib.Tactic.Common
import Rebuild.Numeral

namespace Rebuild

namespace Numeral

variable {c : Char} {cs : List Char}

/-! ## Digits -/

theorem toNat_byte (h : c.isDigit) : (Text.byte c).toNat = c.toNat := by
  obtain ⟨-, hle⟩ := Char.isDigit_iff_toNat.1 h
  have hlt : c.toNat < 2 ^ 8 := Nat.lt_of_le_of_lt hle (by decide)
  rw [Text.byte, Char.toUInt8, UInt32.toNat_toUInt8]
  exact Nat.mod_eq_of_lt hlt

theorem digit?_byte (h : c.isDigit) : digit? (Text.byte c) = some (c.toNat - '0'.toNat) := by
  have hrange : Text.byte '0' ≤ Text.byte c ∧ Text.byte c ≤ Text.byte '9' := by
    rw [UInt8.le_iff_toNat_le, UInt8.le_iff_toNat_le, toNat_byte h]
    exact Char.isDigit_iff_toNat.1 h
  rw [digit?, if_pos hrange, toNat_byte h]
  rfl

theorem byte_ne (h : c.isDigit) {b : UInt8} (hb : b < Text.byte '0') : Text.byte c ≠ b := by
  rintro rfl
  rw [UInt8.lt_iff_toNat_lt, toNat_byte h] at hb
  exact Nat.not_lt.2 (Char.isDigit_iff_toNat.1 h).1 hb

theorem not_isBlank_byte (h : c.isDigit) : ¬ isBlank (Text.byte c) = true := by
  intro hb
  have hlt : Text.byte c < Text.byte '0' := by
    rcases Bool.or_eq_true_iff.1 hb with hb | hb
    · exact of_decide_eq_true ((beq_iff_eq.1 hb) ▸ by decide)
    · exact UInt8.lt_of_le_of_lt (of_decide_eq_true (Bool.and_eq_true_iff.1 hb).2) (by decide)
  exact byte_ne h hlt rfl

/-- Every byte that has the value of a digit is one. -/
theorem exists_byte_of_digit? {b : UInt8} {d : Nat} (h : digit? b = some d) :
    ∃ c : Char, c.isDigit ∧ b = Text.byte c ∧ d = c.toNat - '0'.toNat := by
  have hrange : Text.byte '0' ≤ b ∧ b ≤ Text.byte '9' := by
    by_contra hout
    rw [digit?, if_neg hout] at h
    cases h
  have hb : Text.byte (Char.ofUInt8 b) = b := UInt8.toUInt8_toUInt32 b
  have hdigit : (Char.ofUInt8 b).isDigit := by
    rw [Char.isDigit_iff_toNat]
    rwa [UInt8.le_iff_toNat_le, UInt8.le_iff_toNat_le] at hrange
  refine ⟨Char.ofUInt8 b, hdigit, hb.symm, ?_⟩
  rw [← hb, digit?_byte hdigit] at h
  exact (Option.some.inj h).symm

/-- Digits are taken to the last. -/
theorem digits_byte (h : ∀ c ∈ cs, c.isDigit) (n count : Nat) :
    digits digit? 10 n count (cs.map Text.byte) =
      (Nat.ofDigitChars 10 cs n, count + cs.length, []) := by
  induction cs generalizing n count with
  | nil => rfl
  | cons c cs ih =>
    obtain ⟨hc, hcs⟩ := List.forall_mem_cons.1 h
    rw [List.map_cons, digits, digit?_byte hc, Nat.ofDigitChars_cons, Nat.mul_comm 10 n]
    simp only
    rw [ih hcs, List.length_cons, Nat.add_right_comm, Nat.add_assoc]

/-- Digits are taken as long as there are any. -/
theorem exists_digits (t : Text) (n count : Nat) : ∃ cs rest, (∀ c ∈ cs, c.isDigit) ∧
    t = cs.map Text.byte ++ rest ∧
    digits digit? 10 n count t = (Nat.ofDigitChars 10 cs n, count + cs.length, rest) := by
  induction t generalizing n count with
  | nil => exact ⟨[], [], by simp, rfl, rfl⟩
  | cons b t ih =>
    rw [digits]
    cases hd : digit? b with
    | none => exact ⟨[], b :: t, by simp, rfl, rfl⟩
    | some d =>
      obtain ⟨c, hc, rfl, rfl⟩ := exists_byte_of_digit? hd
      obtain ⟨cs, rest, hcs, rfl, hdigits⟩ := ih (n * 10 + (c.toNat - '0'.toNat)) (count + 1)
      refine ⟨c :: cs, rest, List.forall_mem_cons.2 ⟨hc, hcs⟩, rfl, ?_⟩
      simp only
      rw [hdigits, Nat.ofDigitChars_cons, Nat.mul_comm 10 n, List.length_cons, Nat.add_right_comm,
        Nat.add_assoc]

/-! ## What is read to the end -/

/-- What may stand between the blanks and the digits, and whether it is a minus. -/
inductive Sign : Text → Bool → Prop
  | absent : Sign [] false
  | plus : Sign [Text.byte '+'] false
  | minus : Sign [Text.byte '-'] true

/-- The integer with a sign and a magnitude. -/
def intOf (negative : Bool) (m : Nat) : Int := if negative then -m else m

/-- All of a text is a numeral: blanks, perhaps a sign, and digits, one at least. -/
inductive Spells : Text → Bool → Nat → Prop
  | mk (blanks : Text) {s : Text} {negative : Bool} {ds : List Char}
      (hblanks : ∀ b ∈ blanks, isBlank b = true) (hsign : Sign s negative) (hne : ds ≠ [])
      (hdigits : ∀ c ∈ ds, c.isDigit) :
      Spells (blanks ++ s ++ ds.map Text.byte) negative (Nat.ofDigitChars 10 ds 0)

theorem exists_sign (t : Text) : ∃ s, Sign s (sign t).1 ∧ t = s ++ (sign t).2 := by
  cases t with
  | nil => exact ⟨[], .absent, rfl⟩
  | cons b t =>
    rw [sign]
    split_ifs with hminus hplus
    · exact ⟨_, .minus, by rw [hminus]; rfl⟩
    · exact ⟨_, .plus, by rw [hplus]; rfl⟩
    · exact ⟨[], .absent, rfl⟩

/-- In front of a digit a sign is taken, and nothing else. -/
theorem Sign.sign_append {s : Text} {negative : Bool} (hs : Sign s negative) (h : c.isDigit)
    (t : Text) : sign (s ++ Text.byte c :: t) = (negative, Text.byte c :: t) := by
  cases hs with
  | absent =>
    rw [List.nil_append, sign, if_neg (byte_ne h (by decide)), if_neg (byte_ne h (by decide))]
  | plus | minus => rfl

/-- Neither a sign nor a digit is a blank. -/
theorem Sign.dropWhile_append {s : Text} {negative : Bool} (hs : Sign s negative) (h : c.isDigit)
    (t : Text) : (s ++ Text.byte c :: t).dropWhile isBlank = s ++ Text.byte c :: t := by
  cases hs with
  | absent => exact List.dropWhile_cons_of_neg (not_isBlank_byte h)
  | plus | minus => rfl

/-- **The texts that are read to their end are those that spell a numeral.** -/
theorem read?_eq_some_iff {t : Text} {negative : Bool} {m : Nat} :
    read? t = some ⟨negative, m, []⟩ ↔ Spells t negative m := by
  constructor
  · intro h
    obtain ⟨s, hs, hsign⟩ := exists_sign (t.dropWhile isBlank)
    obtain ⟨ds, rest, hds, hdigits, hvalue⟩ := exists_digits (sign (t.dropWhile isBlank)).2 0 0
    simp only [read?, hvalue] at h
    split_ifs at h with hcount
    obtain ⟨rfl, rfl, rfl⟩ := Numeral.mk.inj (Option.some.inj h)
    have ht : t = t.takeWhile isBlank ++ s ++ ds.map Text.byte := by
      rw [List.append_nil] at hdigits
      rw [List.append_assoc, ← hdigits, ← hsign, List.takeWhile_append_dropWhile]
    have hne : ds ≠ [] := by
      rintro rfl
      exact hcount rfl
    have hblanks : ∀ b ∈ t.takeWhile isBlank, isBlank b = true := fun b hb =>
      List.mem_takeWhile_imp hb
    have hspells := Spells.mk _ hblanks hs hne hds
    rwa [← ht] at hspells
  · rintro ⟨_, hblanks, hs, hne, hdigits⟩
    obtain ⟨c, cs, rfl⟩ := List.exists_cons_of_ne_nil hne
    have hc := hdigits c List.mem_cons_self
    rw [read?, List.append_assoc, List.dropWhile_append_of_pos hblanks, List.map_cons,
      hs.dropWhile_append hc, hs.sign_append hc, ← List.map_cons]
    simp only [digits_byte hdigits]
    simp

/-- A text spells one numeral. -/
theorem Spells.unique {t : Text} {negative negative' : Bool} {m m' : Nat}
    (h : Spells t negative m) (h' : Spells t negative' m') : negative = negative' ∧ m = m' := by
  rw [← read?_eq_some_iff] at h h'
  obtain ⟨hnegative, hm, -⟩ := Numeral.mk.inj (Option.some.inj (h.symm.trans h'))
  exact ⟨hnegative, hm⟩

theorem Spells.ne_nil {t : Text} {negative : Bool} {m : Nat} (h : Spells t negative m) : t ≠ [] := by
  rintro rfl
  rw [← read?_eq_some_iff] at h
  cases h

/-! ## Nearest integers in a word -/

theorem clamped_of_nonneg {n : Numeral} (h : 0 ≤ intOf n.negative n.magnitude) :
    n.clamped = min (intOf n.negative n.magnitude) Int64.maxValue.toInt := by
  have hmin : Int64.minValue.toInt = -2 ^ 63 := rfl
  have hmax : Int64.maxValue.toInt = 2 ^ 63 - 1 := rfl
  change max _ (min (intOf n.negative n.magnitude) _) = _
  omega

theorem clamped_nonneg_iff {n : Numeral} :
    0 ≤ n.clamped ↔ 0 ≤ intOf n.negative n.magnitude := by
  have hmin : Int64.minValue.toInt = -2 ^ 63 := rfl
  have hmax : Int64.maxValue.toInt = 2 ^ 63 - 1 := rfl
  change 0 ≤ max _ (min (intOf n.negative n.magnitude) _) ↔ _
  omega

/-! ## Numbers that are written -/

/-- What is written for a number is its digits, of which there is one at least. -/
theorem exists_ofNat (n : Nat) : ∃ c cs, Text.ofNat n = (c :: cs).map Text.byte ∧
    (∀ d ∈ c :: cs, d.isDigit) ∧ Nat.ofDigitChars 10 (c :: cs) 0 = n := by
  cases hds : Nat.toDigits 10 n with
  | nil => exact absurd hds Nat.toDigits_ne_nil
  | cons c cs =>
    refine ⟨c, cs, by rw [Text.ofNat, hds], fun d hd => ?_, ?_⟩
    · exact Nat.isDigit_of_mem_toDigits (by decide) (by decide) (hds ▸ hd)
    · exact hds ▸ Nat.ofDigitChars_toDigits (by decide) (by decide)

/-- **What is written for a number is read as that number.** -/
theorem read?_ofNat (n : Nat) : read? (Text.ofNat n) = some ⟨false, n, []⟩ := by
  obtain ⟨c, cs, ht, hdigit, hvalue⟩ := exists_ofNat n
  rw [read?_eq_some_iff, ht, ← hvalue]
  exact .mk [] (by simp) .absent (List.cons_ne_nil c cs) hdigit

/-- There is no sign. -/
theorem head?_ofNat (n : Nat) : ∃ b, (Text.ofNat n).head? = some b ∧ b ≠ Text.byte '-' := by
  obtain ⟨c, cs, ht, hdigit, -⟩ := exists_ofNat n
  exact ⟨_, by rw [ht]; rfl, byte_ne (hdigit c List.mem_cons_self) (by decide)⟩

end Numeral

end Rebuild
