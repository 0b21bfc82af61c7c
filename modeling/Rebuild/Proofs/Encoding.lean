/-
  What was encoded is read back.

  `Decoder.Reads d bytes a`: wherever the bytes stand, `d` reads them as `a` and stops behind
  them.  One lemma for each way to put decoders together and one for each kind of value; a
  decoder of many parts reads what its encoder wrote by the lemmas of the parts, in their
  order.  `Decoder.Refuses d bytes`: wherever they stand, `d` does not read them.
-/
import Rebuild.Encoding.Decoder
import Rebuild.Proofs.Containers

namespace Rebuild

theorem Encode.length_text (t : Text) : (Encode.text t).length = 4 + t.length := by
  rw [Encode.text, Encode.count, Encode.u32, List.length_append, length_leBytes]

namespace Decoder

variable {α β : Type}

/-- Wherever these bytes stand, a decoder reads them as a value and stops behind them. -/
def Reads (d : Decoder α) (bytes : Text) (a : α) : Prop :=
  ∀ pos more, d ⟨pos, bytes ++ more, true⟩ = (some a, ⟨pos + bytes.length, more, true⟩)

namespace Reads

variable {d : Decoder α} {f : α → Decoder β} {t u : Text} {a : α} {b : β}

/-! ## Decoders put together -/

theorem pure (a : α) : Reads (Pure.pure a) [] a := fun _ _ => rfl

theorem bind (hd : Reads d t a) (hf : Reads (f a) u b) : Reads (d >>= f) (t ++ u) b := by
  intro pos more
  change Decoder.bind d f _ = _
  rw [Decoder.bind, List.append_assoc, hd]
  dsimp only
  rw [hf, List.length_append, Nat.add_assoc]

/-- The last part. -/
theorem map (hd : Reads d t a) (g : α → β) : Reads (d >>= fun a => Pure.pure (g a)) t (g a) := by
  have := hd.bind (f := fun a => Pure.pure (g a)) (pure (g a))
  rwa [List.append_nil] at this

theorem guard {p : Bool} (h : p = true) : Reads (Decoder.guard p) [] () := by
  rw [Decoder.guard, if_pos h]
  exact pure ()

/-- A check before the next part. -/
theorem guard_bind {p : Bool} {f : Unit → Decoder β} (h : p = true) (hf : Reads (f ()) t b) :
    Reads (Decoder.guard p >>= f) t b := (guard h).bind hf

theorem take (t : Text) : Reads (Decoder.take t.length) t t := by
  intro pos more
  have h : Text.hasAtLeast t.length (t ++ more) = true := by
    rw [Text.hasAtLeast_iff, List.length_append]
    exact Nat.le_add_right _ _
  simp [Decoder.take, h]

/-! ## Numbers -/

theorem word (width n : Nat) :
    Reads (Decoder.word width) (leBytes width n) (n % Nat.pow 256 width) := by
  have h := (take (leBytes width n)).map leValue
  rwa [length_leBytes, leValue_leBytes] at h

theorem u8 (v : UInt8) : Reads Decoder.u8 (Encode.u8 v) v := by
  have h := (word 1 v.toNat).map UInt8.ofNat
  rwa [Nat.mod_eq_of_lt v.toNat_lt, leBytes, leBytes, UInt8.ofNat_toNat] at h

theorem u16 (v : UInt16) : Reads Decoder.u16 (Encode.u16 v) v := by
  have h := (word 2 v.toNat).map UInt16.ofNat
  rwa [Nat.mod_eq_of_lt v.toNat_lt, UInt16.ofNat_toNat] at h

theorem u32 (v : UInt32) : Reads Decoder.u32 (Encode.u32 v) v := by
  have h := (word 4 v.toNat).map UInt32.ofNat
  rwa [Nat.mod_eq_of_lt v.toNat_lt, UInt32.ofNat_toNat] at h

theorem u64 (v : UInt64) : Reads Decoder.u64 (Encode.u64 v) v := by
  have h := (word 8 v.toNat).map UInt64.ofNat
  rwa [Nat.mod_eq_of_lt v.toNat_lt, UInt64.ofNat_toNat] at h

theorem i64 (v : Int64) : Reads Decoder.i64 (Encode.i64 v) v := by
  have h := (u64 v.toUInt64).map UInt64.toInt64
  rwa [Int64.toInt64_toUInt64] at h

theorem bool (v : Bool) : Reads Decoder.bool (Encode.bool v) v := by
  cases v with
  | false => exact (u8 0).bind (guard_bind rfl (pure false))
  | true => exact (u8 1).bind (guard_bind rfl (pure true))

/-! ## Texts and lists -/

theorem toNat_count {n : Nat} (h : n < UInt32.size) : (UInt32.ofNat n).toNat = n :=
  UInt32.toNat_ofNat_of_lt' h

theorem text (h : t.length ≤ maxEncodedText) : Reads Decoder.text (Encode.text t) t := by
  have hlt : t.length < UInt32.size := Nat.lt_of_le_of_lt h (by decide)
  refine (u32 _).bind (guard_bind ?_ ?_)
  · rw [toNat_count hlt]
    exact decide_eq_true h
  · rw [toNat_count hlt]
    exact take t

/-- One value after the other. -/
theorem times {item : Decoder α} {enc : α → Text} {xs : List α}
    (h : ∀ x ∈ xs, Reads item (enc x) x) :
    Reads (Decoder.times item xs.length) (xs.flatMap enc) xs := by
  induction xs with
  | nil => exact pure []
  | cons x xs ih =>
    obtain ⟨hx, hxs⟩ := List.forall_mem_cons.1 h
    exact hx.bind ((ih hxs).map (x :: ·))

/-- The values behind a count take up at least what the reader asks for. -/
theorem le_length_flatMap {enc : α → Text} {least : Nat} {xs : List α}
    (h : ∀ x ∈ xs, least ≤ (enc x).length) : least * xs.length ≤ (xs.flatMap enc).length := by
  induction xs with
  | nil => exact Nat.le_refl 0
  | cons x xs ih =>
    obtain ⟨hx, hxs⟩ := List.forall_mem_cons.1 h
    rw [List.length_cons, Nat.mul_succ, List.flatMap_cons, List.length_append, Nat.add_comm]
    exact Nat.add_le_add hx (ih hxs)

theorem list {item : Decoder α} {enc : α → Text} {least : Nat} {xs : List α}
    (hlt : xs.length < UInt32.size) (hleast : ∀ x ∈ xs, least ≤ (enc x).length)
    (h : ∀ x ∈ xs, Reads item (enc x) x) :
    Reads (Decoder.list least item) (Encode.list enc xs) xs := by
  refine (u32 _).bind fun pos more => ?_
  rw [toNat_count hlt]
  -- the check looks at all bytes to come, so it is not one of the form `guard_bind` takes
  have hroom : Text.hasAtLeast (least * xs.length) (xs.flatMap enc ++ more) = true := by
    rw [Text.hasAtLeast_iff, List.length_append]
    exact Nat.le_trans (le_length_flatMap hleast) (Nat.le_add_right _ _)
  change (Decoder.guard (Text.hasAtLeast (least * xs.length) (xs.flatMap enc ++ more)) >>=
    fun _ => Decoder.times item xs.length) _ = _
  exact guard_bind hroom (times h) pos more

theorem texts {ts : List Text} (hlt : ts.length < UInt32.size)
    (h : ∀ t ∈ ts, t.length ≤ maxEncodedText) : Reads Decoder.texts (Encode.texts ts) ts := by
  refine list hlt (fun t _ => ?_) fun t ht => text (h t ht)
  rw [Encode.length_text]
  exact Nat.le_add_right 4 _

theorem textSet {s : TextSet} (hlt : s.size < UInt32.size)
    (h : ∀ t ∈ s, t.length ≤ maxEncodedText) : Reads Decoder.textSet (Encode.textSet s) s := by
  have hlength : s.toList.length < UInt32.size := by rwa [Std.ExtTreeSet.length_toList]
  have hs := (texts hlength fun t ht => h t (Std.ExtTreeSet.mem_toList.1 ht)).map TextSet.ofTexts
  rwa [ofTexts_toList] at hs

/-- A decoder that reads all of a text. -/
theorem exactly (h : Reads d t a) : d.exactly t = some a := by
  have := h 0 []
  rw [List.append_nil] at this
  simp [Decoder.exactly, Reader.start, this, Reader.atEnd]

end Reads

/-! ## What is refused -/

variable {d : Decoder α} {f : α → Decoder β} {t u : Text} {a : α}

/-- Wherever these bytes stand, a decoder does not read them. -/
def Refuses (d : Decoder α) (bytes : Text) : Prop :=
  ∀ pos more, (d ⟨pos, bytes ++ more, true⟩).1 = none

/-- The first part is read, the second is not. -/
theorem Reads.bind_refuses (hd : Reads d t a) (hf : Refuses (f a) u) :
    Refuses (d >>= f) (t ++ u) := by
  intro pos more
  change (Decoder.bind d f _).1 = none
  rw [Decoder.bind, List.append_assoc, hd]
  exact hf _ more

namespace Refuses

theorem bind (hd : Refuses d t) : Refuses (d >>= f) t := by
  intro pos more
  have h := hd pos more
  change (Decoder.bind d f _).1 = none
  unfold Decoder.bind
  split
  · next heq => simp [heq] at h
  · rfl

theorem guard : Refuses (Decoder.guard false) t := fun _ _ => rfl

/-- A text above the limit is not read. -/
theorem text (hlt : t.length < UInt32.size) (h : maxEncodedText < t.length) :
    Refuses Decoder.text (Encode.text t) := by
  refine (Reads.u32 _).bind_refuses (bind ?_)
  rw [Reads.toNat_count hlt, decide_eq_false (Nat.not_le.2 h)]
  exact guard

theorem exactly (h : Refuses d t) : d.exactly t = none := by
  have h := h 0 []
  rw [List.append_nil] at h
  unfold Decoder.exactly
  split
  · next heq =>
    change d ⟨0, t, true⟩ = _ at heq
    simp [heq] at h
  · rfl

end Refuses

end Decoder

end Rebuild
