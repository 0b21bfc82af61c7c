/-
  Where a value ends.

  A decoder is steady if it never looks behind what it reads: the same is read when more bytes
  follow.  So of the bytes that an encoder wrote no beginning is taken for a value, and nothing
  that is longer is either.

  * `Steady` holds of every kind of value, one lemma for each way to put decoders together;
  * `Reads.exactly_eq_none_of_prefix` and `Reads.exactly_append` say what is refused.
-/
import Rebuild.Proofs.Encoding.Canonical

namespace Rebuild

/-- The reader with more bytes behind those that are left. -/
def Reader.followedBy (r : Reader) (more : Text) : Reader := { r with rest := r.rest ++ more }

theorem Text.hasAtLeast_append {n : Nat} {t : Text} (h : t.hasAtLeast n = true) (more : Text) :
    Text.hasAtLeast n (t ++ more) = true := by
  rw [hasAtLeast_iff] at h ⊢
  rw [List.length_append]
  exact Nat.le_add_right_of_le h

namespace Decoder

variable {α β : Type} {d : Decoder α} {f : α → Decoder β}

/-- What is read is read as well when more bytes follow. -/
def Steady (d : Decoder α) : Prop :=
  ∀ ⦃r : Reader⦄ ⦃a : α⦄ ⦃r' : Reader⦄, d r = (some a, r') →
    ∀ more, d (r.followedBy more) = (some a, r'.followedBy more)

namespace Steady

/-! ## Decoders put together -/

theorem pure (a : α) : Steady (Pure.pure a : Decoder α) := by
  intro r b r' h more
  obtain ⟨rfl, rfl⟩ := pure_eq_some h
  rfl

theorem bind (hd : Steady d) (hf : ∀ a, Steady (f a)) : Steady (d >>= f) := by
  intro r b r' h more
  obtain ⟨a, r₁, ha, hb⟩ := bind_eq_some h
  change Decoder.bind d f _ = _
  rw [Decoder.bind, hd ha more]
  exact hf a hb more

theorem guard (p : Bool) : Steady (Decoder.guard p) := by
  intro r u r' h more
  obtain ⟨rfl, rfl⟩ := guard_eq_some h
  rfl

theorem take (n : Nat) : Steady (Decoder.take n) := by
  intro r t r' h more
  unfold Decoder.take at h
  split at h
  · next hn =>
    cases h
    rw [Bool.and_eq_true] at hn
    have hn' := Text.hasAtLeast_append hn.2 more
    have hle := (Text.hasAtLeast_iff _ _).1 hn.2
    simp [Decoder.take, Reader.followedBy, hn.1, hn', List.take_append_of_le_length hle,
      List.drop_append_of_le_length hle]
  · cases h

/-! ## Numbers, texts and lists -/

theorem word (width : Nat) : Steady (Decoder.word width) := (take width).bind fun _ => pure _

theorem u32 : Steady Decoder.u32 := (word 4).bind fun _ => pure _

theorem text : Steady Decoder.text := u32.bind fun _ => (guard _).bind fun _ => take _

theorem times {item : Decoder α} (h : Steady item) (n : Nat) : Steady (Decoder.times item n) := by
  induction n with
  | zero => exact pure []
  | succ n ih => exact h.bind fun _ => ih.bind fun _ => pure _

theorem list {item : Decoder α} (least : Nat) (h : Steady item) :
    Steady (Decoder.list least item) := by
  intro r xs r' hxs more
  obtain ⟨n, r₁, hn, hroom, hxs⟩ := list_eq_some hxs
  -- the check asks for all bytes to come, and more of them do not turn a yes into a no
  have hroom' : Text.hasAtLeast (least * n.toNat) (r₁.followedBy more).rest = true :=
    Text.hasAtLeast_append hroom more
  rw [list_apply, u32 hn more]
  dsimp only
  rw [if_pos hroom']
  exact h.times n.toNat hxs more

theorem texts : Steady Decoder.texts := text.list 4

theorem textSet : Steady Decoder.textSet := texts.bind fun _ => pure _

end Steady

/-! ## What is read, and what is refused -/

variable {t bytes : Text} {a : α}

theorem Reads.start (ha : Reads d bytes a) :
    d (Reader.start bytes) = (some a, ⟨bytes.length, [], true⟩) := by
  have h := ha 0 []
  rwa [List.append_nil, Nat.zero_add] at h

/-- No beginning of the bytes of a value is taken for a value. -/
theorem Steady.exactly_eq_none_of_prefix (hd : Steady d) (ha : Reads d bytes a)
    (hpre : t <+: bytes) (hne : t ≠ bytes) : d.exactly t = none := by
  obtain ⟨more, rfl⟩ := hpre
  unfold Decoder.exactly
  split
  · next b r hb =>
    -- read with and without the rest, the values end at the same place
    have hrest := congrArg (·.2.rest) ((hd hb more).symm.trans ha.start)
    have hmore : more = [] := (List.append_eq_nil_iff.1 hrest).2
    exact absurd (by rw [hmore, List.append_nil]) hne
  · rfl

/-- Nothing that goes on behind the bytes of a value is taken for a value. -/
theorem Reads.exactly_append (ha : Reads d bytes a) (hne : t ≠ []) :
    d.exactly (bytes ++ t) = none := by
  have h := ha 0 t
  simp [Decoder.exactly, Reader.start, h, Reader.atEnd, hne]

end Decoder

end Rebuild
