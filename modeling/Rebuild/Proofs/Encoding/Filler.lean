/-
  What is filled is what is decoded.

  `Filler.Follows f old d`: of this old value `f` makes what `d` reads, and it fails where `d`
  does.  A filler that goes through all fields of a record, one after the other, thus leaves
  nothing of the old record in the new one.

  `Filler.Recognizes f bytes a`: of some bytes, their beginnings and what goes on behind them,
  `f` accepts these bytes alone, as the value `a`.
-/
import Rebuild.Encoding.Filler
import Rebuild.Proofs.Encoding.Delimited

namespace Rebuild

namespace Filler

variable {σ α : Type}

/-! ## When a filler succeeds -/

theorem push_eq_true {item : Decoder α} {n : Nat} {xs ys : List α} {r r' : Reader} :
    push item n xs r = (true, ys, r') ↔
      ∃ as, Decoder.times item n r = (some as, r') ∧ ys = xs ++ as := by
  induction n generalizing xs r with
  | zero =>
    constructor
    · rintro ⟨⟩
      exact ⟨[], rfl, (List.append_nil _).symm⟩
    · rintro ⟨as, h, rfl⟩
      obtain ⟨rfl, rfl⟩ := Decoder.pure_eq_some h
      rw [List.append_nil]
      rfl
  | succ n ih =>
    rw [push, Decoder.times]
    dsimp only
    constructor
    · intro h
      split at h
      · next a r₁ ha =>
        obtain ⟨as, has, rfl⟩ := ih.1 h
        refine ⟨a :: as, ?_, by rw [List.append_assoc, List.singleton_append]⟩
        exact Decoder.bind_eq_some_iff.2 ⟨a, r₁, ha, Decoder.bind_eq_some_iff.2 ⟨as, r', has, rfl⟩⟩
      · cases h
    · rintro ⟨as, h, rfl⟩
      obtain ⟨a, r₁, ha, h⟩ := Decoder.bind_eq_some h
      obtain ⟨as, r₂, has, h⟩ := Decoder.bind_eq_some h
      obtain ⟨rfl, rfl⟩ := Decoder.pure_eq_some h
      rw [ha]
      exact ih.2 ⟨as, has, by rw [List.append_assoc, List.singleton_append]⟩

theorem within_eq_true {f : Filler α} {get : σ → α} {set : σ → α → σ} {s s' : σ} {r r' : Reader} :
    f.within get set s r = (true, s', r') ↔ ∃ a, f (get s) r = (true, a, r') ∧ s' = set s a := by
  rw [within]
  rcases f (get s) r with ⟨all, a, r₁⟩
  simp only [Prod.mk.injEq]
  constructor
  · rintro ⟨rfl, rfl, rfl⟩
    exact ⟨a, ⟨rfl, rfl, rfl⟩, rfl⟩
  · rintro ⟨a, ⟨rfl, rfl, rfl⟩, rfl⟩
    exact ⟨rfl, rfl, rfl⟩

theorem andThen_eq_true {f g : Filler σ} {s s' : σ} {r r' : Reader} :
    f.andThen g s r = (true, s', r') ↔
      ∃ s₁ r₁, f s r = (true, s₁, r₁) ∧ g s₁ r₁ = (true, s', r') := by
  rw [andThen]
  rcases f s r with ⟨_ | _, s₁, r₁⟩
  · simp
  · simp only [Prod.mk.injEq, true_and]
    constructor
    · exact fun h => ⟨s₁, r₁, ⟨rfl, rfl⟩, h⟩
    · rintro ⟨_, _, ⟨rfl, rfl⟩, h⟩
      exact h

/-! ## Fillers and decoders -/

/-- Of this old value a filler makes what a decoder reads, and it fails where the decoder does. -/
def Follows (f : Filler σ) (old : σ) (d : Decoder σ) : Prop :=
  ∀ ⦃r : Reader⦄ ⦃a : σ⦄ ⦃r' : Reader⦄, f old r = (true, a, r') ↔ d r = (some a, r')

namespace Follows

theorem ofDecoder (d : Decoder α) (old : α) : Follows (Filler.ofDecoder d) old d := by
  intro r a r'
  rw [Filler.ofDecoder]
  rcases d r with ⟨_ | b, r₁⟩ <;> simp

theorem list (least : Nat) (item : Decoder α) (old : List α) :
    Follows (Filler.list least item) old (Decoder.list least item) := by
  intro r xs r'
  rw [Filler.list, Decoder.list_apply]
  rcases Decoder.u32 r with ⟨_ | n, r₁⟩
  · simp
  · dsimp only
    split_ifs
    · rw [push_eq_true]
      simp
    · simp

variable {f : Filler α} {g : Filler σ} {get : σ → α} {set : σ → α → σ} {s : σ} {d : Decoder α}

/-- The last field. -/
theorem within (hf : Follows f (get s) d) :
    Follows (f.within get set) s (d >>= fun a => Pure.pure (set s a)) := by
  intro r b r'
  rw [within_eq_true, Decoder.bind_eq_some_iff]
  constructor
  · rintro ⟨a, ha, rfl⟩
    exact ⟨a, r', hf.1 ha, rfl⟩
  · rintro ⟨a, r₁, ha, h⟩
    obtain ⟨rfl, rfl⟩ := Decoder.pure_eq_some h
    exact ⟨a, hf.2 ha, rfl⟩

/-- A field before others. -/
theorem andThen {k : α → Decoder σ} (hf : Follows f (get s) d)
    (hg : ∀ a, Follows g (set s a) (k a)) :
    Follows ((f.within get set).andThen g) s (d >>= k) := by
  intro r b r'
  rw [andThen_eq_true, Decoder.bind_eq_some_iff]
  constructor
  · rintro ⟨_, r₁, h, hb⟩
    obtain ⟨a, ha, rfl⟩ := within_eq_true.1 h
    exact ⟨a, r₁, hf.1 ha, (hg a).1 hb⟩
  · rintro ⟨a, r₁, ha, hb⟩
    exact ⟨set s a, r₁, within_eq_true.2 ⟨a, hf.2 ha, rfl⟩, (hg a).2 hb⟩

/-- Bytes are accepted or refused whatever there was before, and so is what is made of them. -/
theorem exactly_eq_true {f : Filler σ} {e : Decoder σ} (h : Follows f s e) {t : Text} {a : σ} :
    f.exactly t s = (true, a) ↔ e.exactly t = some a := by
  rw [Filler.exactly, Decoder.exactly]
  constructor
  · intro ha
    rcases hf : f s (Reader.start t) with ⟨all, b, r⟩
    rw [hf] at ha
    simp only [Prod.mk.injEq, Bool.and_eq_true] at ha
    obtain ⟨⟨rfl, hend⟩, rfl⟩ := ha
    rw [h.1 hf]
    exact if_pos hend
  · intro ha
    split at ha
    · next b r hb =>
      obtain ⟨hend, hba⟩ := Option.ite_none_right_eq_some.1 ha
      cases hba
      rw [h.2 hb]
      simp [hend]
    · cases ha

theorem exactly_eq_false {f : Filler σ} {e : Decoder σ} (h : Follows f s e) {t : Text}
    (ht : e.exactly t = none) : (f.exactly t s).1 = false := by
  rw [Bool.eq_false_iff]
  intro htrue
  have ha := h.exactly_eq_true.1 (Prod.ext htrue rfl : f.exactly t s = (true, (f.exactly t s).2))
  simp [ht] at ha

end Follows

/-! ## The bytes of one value -/

/-- A filler reads these bytes to their end and makes the value of them, whatever there was
    before; it accepts no other beginning of them and nothing that is longer. -/
structure Recognizes (f : Filler σ) (bytes : Text) (a : σ) : Prop where
  reads : ∀ old, f old (Reader.start bytes) = (true, a, ⟨bytes.length, [], true⟩)
  accepts : ∀ old, f.exactly bytes old = (true, a)
  refuses_beginning : ∀ t, t <+: bytes → t ≠ bytes → ∀ old, (f.exactly t old).1 = false
  refuses_longer : ∀ t, t ≠ [] → ∀ old, (f.exactly (bytes ++ t) old).1 = false

theorem recognizes {f : Filler σ} {d : Decoder σ} {bytes : Text} {a : σ}
    (hf : ∀ old, Follows f old d) (hd : d.Steady) (ha : d.Reads bytes a) :
    f.Recognizes bytes a where
  reads old := (hf old).2 ha.start
  accepts old := (hf old).exactly_eq_true.2 ha.exactly
  refuses_beginning _ hpre hne old :=
    (hf old).exactly_eq_false (hd.exactly_eq_none_of_prefix ha hpre hne)
  refuses_longer _ hne old := (hf old).exactly_eq_false (ha.exactly_append hne)

end Filler

end Rebuild
