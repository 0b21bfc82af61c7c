/-
  What is read was spelled the one way in which it is written.

  * `Decoder.Canonical d enc`: the bytes that `d` takes for a value are the ones that `enc` writes
    for it;
  * `Decoder.Strict d P enc`: moreover the value has the property `P`, such as the limits within
    which values are read back.

  Decoders put together are taken apart by `bind_eq_some`, `guard_eq_some` and `list_eq_some`, and
  what the parts took adds up.  A strict decoder whose values are read back accepts the bytes of
  its values and nothing else (`Strict.exactly_eq_some_iff`).
-/
import Rebuild.Encoding.Decoder
import Rebuild.Proofs.Encoding

namespace Rebuild

/-- The bytes of a number depend on no more of it than they hold. -/
theorem leBytes_mod (width n : Nat) : leBytes width (n % Nat.pow 256 width) = leBytes width n := by
  have h := leBytes_leValue (leBytes width n)
  rwa [length_leBytes, leValue_leBytes] at h

namespace Decoder

variable {α β : Type}

/-- What a decoder takes for a value is what is written for it. -/
def Canonical (d : Decoder α) (enc : α → Text) : Prop :=
  ∀ ⦃r : Reader⦄ ⦃a : α⦄ ⦃r' : Reader⦄, d r = (some a, r') → r.rest = enc a ++ r'.rest

/-! ## Decoders taken apart -/

theorem bind_eq_some {d : Decoder α} {f : α → Decoder β} {r r' : Reader} {b : β}
    (h : (d >>= f) r = (some b, r')) : ∃ a r₁, d r = (some a, r₁) ∧ f a r₁ = (some b, r') := by
  change Decoder.bind d f r = _ at h
  unfold Decoder.bind at h
  split at h
  · next a r₁ hd => exact ⟨a, r₁, hd, h⟩
  · cases h

theorem bind_eq_some_iff {d : Decoder α} {f : α → Decoder β} {r r' : Reader} {b : β} :
    (d >>= f) r = (some b, r') ↔ ∃ a r₁, d r = (some a, r₁) ∧ f a r₁ = (some b, r') := by
  refine ⟨bind_eq_some, ?_⟩
  rintro ⟨a, r₁, ha, hb⟩
  change Decoder.bind d f r = _
  rw [Decoder.bind, ha]
  exact hb

theorem pure_eq_some {a b : α} {r r' : Reader} (h : (Pure.pure a : Decoder α) r = (some b, r')) :
    a = b ∧ r = r' := by
  cases h
  exact ⟨rfl, rfl⟩

theorem guard_eq_some {p : Bool} {u : Unit} {r r' : Reader}
    (h : Decoder.guard p r = (some u, r')) : p = true ∧ r = r' := by
  cases p with
  | true => exact ⟨rfl, (pure_eq_some h).2⟩
  | false => cases h

theorem take_eq_some {n : Nat} {r r' : Reader} {t : Text}
    (h : Decoder.take n r = (some t, r')) : t.length = n ∧ r.rest = t ++ r'.rest := by
  unfold Decoder.take at h
  split at h
  · next hn =>
    cases h
    rw [Bool.and_eq_true, Text.hasAtLeast_iff] at hn
    exact ⟨List.length_take_of_le hn.2, (List.take_append_drop n r.rest).symm⟩
  · cases h

theorem list_apply (least : Nat) (item : Decoder α) (r : Reader) :
    Decoder.list least item r =
      match Decoder.u32 r with
      | (some n, r) =>
        if r.rest.hasAtLeast (least * n.toNat) then Decoder.times item n.toNat r
        else (none, { r with ok := false })
      | (none, r) => (none, r) := by
  change Decoder.bind Decoder.u32 _ r = _
  rw [Decoder.bind]
  rcases Decoder.u32 r with ⟨_ | n, r⟩
  · rfl
  · change Decoder.bind (Decoder.guard (r.rest.hasAtLeast (least * n.toNat)))
      (fun _ => Decoder.times item n.toNat) r = _
    dsimp only
    cases r.rest.hasAtLeast (least * n.toNat) <;> rfl

theorem list_eq_some {least : Nat} {item : Decoder α} {r r' : Reader} {xs : List α}
    (h : Decoder.list least item r = (some xs, r')) :
    ∃ n r₁, Decoder.u32 r = (some n, r₁) ∧ r₁.rest.hasAtLeast (least * n.toNat) = true ∧
      Decoder.times item n.toNat r₁ = (some xs, r') := by
  rw [list_apply] at h
  split at h
  · next n r₁ hn =>
    split at h
    · next hroom => exact ⟨n, r₁, hn, hroom, h⟩
    · cases h
  · cases h

namespace Canonical

/-- Another name for each value. -/
theorem map {d : Decoder α} {enc : α → Text} {g : α → β} {enc' : β → Text} (hd : Canonical d enc)
    (henc : ∀ a, enc' (g a) = enc a) : Canonical (d >>= fun a => Pure.pure (g a)) enc' := by
  intro r b r' h
  obtain ⟨a, r₁, ha, hb⟩ := bind_eq_some h
  obtain ⟨rfl, rfl⟩ := pure_eq_some hb
  rw [henc]
  exact hd ha

/-! ## Numbers and texts -/

theorem word (width : Nat) : Canonical (Decoder.word width) (leBytes width) := by
  intro r n r' h
  obtain ⟨t, r₁, ht, hn⟩ := bind_eq_some h
  obtain ⟨rfl, rfl⟩ := pure_eq_some hn
  obtain ⟨rfl, hrest⟩ := take_eq_some ht
  rwa [leBytes_leValue]

theorem u8 : Canonical Decoder.u8 Encode.u8 :=
  (word 1).map fun n => by rw [Encode.u8, leBytes, leBytes]

theorem u16 : Canonical Decoder.u16 Encode.u16 :=
  (word 2).map fun n => by rw [Encode.u16, UInt16.toNat_ofNat', ← leBytes_mod 2 n]

theorem u32 : Canonical Decoder.u32 Encode.u32 :=
  (word 4).map fun n => by rw [Encode.u32, UInt32.toNat_ofNat', ← leBytes_mod 4 n]

theorem u64 : Canonical Decoder.u64 Encode.u64 :=
  (word 8).map fun n => by rw [Encode.u64, UInt64.toNat_ofNat', ← leBytes_mod 8 n]

end Canonical

/-- A text that is read is no longer than a reader accepts. -/
theorem text_eq_some {r r' : Reader} {t : Text} (h : Decoder.text r = (some t, r')) :
    t.length ≤ maxEncodedText ∧ r.rest = Encode.text t ++ r'.rest := by
  obtain ⟨n, r₁, hn, h⟩ := bind_eq_some h
  obtain ⟨_, r₂, hguard, ht⟩ := bind_eq_some h
  obtain ⟨hmax, rfl⟩ := guard_eq_some hguard
  obtain ⟨hlength, hrest⟩ := take_eq_some ht
  refine ⟨hlength ▸ of_decide_eq_true hmax, ?_⟩
  rw [Canonical.u32 hn, hrest, Encode.text, Encode.count, hlength, UInt32.ofNat_toNat,
    List.append_assoc]

/-! ## Values within limits -/

/-- What a decoder takes for a value is what is written for it, and the value has the property. -/
def Strict (d : Decoder α) (P : α → Prop) (enc : α → Text) : Prop :=
  ∀ ⦃r : Reader⦄ ⦃a : α⦄ ⦃r' : Reader⦄, d r = (some a, r') → P a ∧ r.rest = enc a ++ r'.rest

namespace Strict

variable {d item : Decoder α} {P : α → Prop} {enc : α → Text}

theorem text : Strict Decoder.text (fun t => t.length ≤ maxEncodedText) Encode.text :=
  fun _ _ _ h => text_eq_some h

theorem times (h : Strict item P enc) (n : Nat) :
    Strict (Decoder.times item n) (fun xs => xs.length = n ∧ ∀ x ∈ xs, P x) (·.flatMap enc) := by
  induction n with
  | zero =>
    intro r xs r' hxs
    obtain ⟨rfl, rfl⟩ := pure_eq_some hxs
    exact ⟨⟨rfl, by simp⟩, rfl⟩
  | succ n ih =>
    intro r xs r' hxs
    obtain ⟨a, r₁, ha, hxs⟩ := bind_eq_some hxs
    obtain ⟨as, r₂, has, hxs⟩ := bind_eq_some hxs
    obtain ⟨rfl, rfl⟩ := pure_eq_some hxs
    obtain ⟨hPa, hrest⟩ := h ha
    obtain ⟨⟨hlength, hPas⟩, hrest'⟩ := ih has
    refine ⟨⟨congrArg (· + 1) hlength, List.forall_mem_cons.2 ⟨hPa, hPas⟩⟩, ?_⟩
    rw [hrest, hrest']
    simp only [List.flatMap_cons, List.append_assoc]

theorem list (least : Nat) (h : Strict item P enc) :
    Strict (Decoder.list least item) (fun xs => xs.length < UInt32.size ∧ ∀ x ∈ xs, P x)
      (Encode.list enc) := by
  intro r xs r' hxs
  obtain ⟨n, r₁, hn, -, hxs⟩ := list_eq_some hxs
  obtain ⟨⟨hlength, hPxs⟩, hrest⟩ := h.times n.toNat hxs
  refine ⟨⟨hlength ▸ n.toNat_lt_size, hPxs⟩, ?_⟩
  rw [Canonical.u32 hn, hrest, Encode.list, Encode.count, hlength, UInt32.ofNat_toNat,
    List.append_assoc]

theorem texts : Strict Decoder.texts
    (fun ts => ts.length < UInt32.size ∧ ∀ t ∈ ts, t.length ≤ maxEncodedText) Encode.texts :=
  text.list 4

/-- **The bytes of the values with the property are accepted, and nothing else.** -/
theorem exactly_eq_some_iff (hd : Strict d P enc) (hreads : ∀ a, P a → Reads d (enc a) a)
    {t : Text} {a : α} : d.exactly t = some a ↔ P a ∧ t = enc a := by
  constructor
  · intro h
    unfold Decoder.exactly at h
    split at h
    · next b r hb =>
      obtain ⟨hend, hba⟩ := Option.ite_none_right_eq_some.1 h
      cases hba
      obtain ⟨hPa, hrest⟩ := hd hb
      rw [Reader.atEnd, Bool.and_eq_true, List.isEmpty_iff] at hend
      rw [hend.2, List.append_nil] at hrest
      exact ⟨hPa, hrest⟩
    · cases h
  · rintro ⟨hPa, rfl⟩
    exact (hreads a hPa).exactly

end Strict

end Decoder

end Rebuild
