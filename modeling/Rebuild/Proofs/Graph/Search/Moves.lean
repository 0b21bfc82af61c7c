/-
  The changes that a step of the search is made of keep the invariant.

  A node is entered (`Valid.enter`), a mark is lowered (`Valid.lower`), an edge is taken
  (`Valid.drop`), a node is left (`Valid.leave`), or its component is closed (`Valid.close`).
-/
import Rebuild.Proofs.Graph.Search.Invariant

namespace Rebuild

open Relation

namespace Search

/-! ## How the parts change -/

theorem entry_enter (s : Search) (v x : Nat) (targets : List Nat) :
    (s.enter v targets).entry x =
      if x = v ∧ x < s.entered.size then some s.clock else s.entry x := by
  simp only [entry, enter, getD_setIfInBounds]

theorem lowOf_enter (s : Search) (v x : Nat) (targets : List Nat) :
    (s.enter v targets).lowOf x = if x = v ∧ x < s.low.size then s.clock else s.lowOf x := by
  simp only [lowOf, enter, getD_setIfInBounds]

section
variable {v x : Nat} (s : Search) (targets : List Nat) (hx : x ≠ v)
include hx

theorem entry_enter_of_ne : (s.enter v targets).entry x = s.entry x := by
  rw [entry_enter, if_neg fun h => hx h.1]

theorem time_enter_of_ne : (s.enter v targets).time x = s.time x := by
  rw [time, entry_enter_of_ne s targets hx, time]

theorem lowOf_enter_of_ne : (s.enter v targets).lowOf x = s.lowOf x := by
  rw [lowOf_enter, if_neg fun h => hx h.1]

end

theorem lowOf_lower (s : Search) (v x bound : Nat) :
    (s.lower v bound).lowOf x = if x = v then min (s.lowOf v) bound else s.lowOf x := by
  simp only [lowOf, lower, Array.getD_eq_getD_getElem?, Array.getElem?_modify]
  by_cases hx : v = x
  · subst hx
    cases s.low[v]? <;> simp
  · simp [hx, Ne.symm hx]

namespace Valid

variable {g : Graph} {s : Search}

/-! ## Entering a node -/

section
variable (hs : Valid g s) {w : Nat}
include hs

theorem entry_enter_self (hw : w < g.size) (targets : List Nat) :
    (s.enter w targets).entry w = some s.clock := by
  rw [entry_enter, if_pos ⟨rfl, hs.entered_size ▸ hw⟩]

theorem time_enter_self (hw : w < g.size) (targets : List Nat) :
    (s.enter w targets).time w = s.clock := by
  rw [time, hs.entry_enter_self hw]
  rfl

theorem lowOf_enter_self (hw : w < g.size) (targets : List Nat) :
    (s.enter w targets).lowOf w = s.clock := by
  rw [lowOf_enter, if_pos ⟨rfl, hs.low_size ▸ hw⟩]

variable (hn : s.entry w = none)
include hn

theorem ne_of_mem {x : Nat} (hx : x ∈ s.stack) : x ≠ w := by
  rintro rfl
  exact hs.entered_of_mem hx hn

theorem time_enter_of_mem {x : Nat} (targets : List Nat) (hx : x ∈ s.stack) :
    (s.enter w targets).time x = s.time x := time_enter_of_ne s targets (hs.ne_of_mem hn hx)

theorem lowOf_enter_of_mem {x : Nat} (targets : List Nat) (hx : x ∈ s.stack) :
    (s.enter w targets).lowOf x = s.lowOf x := lowOf_enter_of_ne s targets (hs.ne_of_mem hn hx)

variable (hw : w < g.size)
include hw

/-- The new node is the latest one. -/
theorem time_enter_lt {x : Nat} (targets : List Nat) (hx : x ∈ s.stack) :
    (s.enter w targets).time x < (s.enter w targets).time w := by
  rw [hs.time_enter_self hw, hs.time_enter_of_mem hn targets hx]
  exact hs.time_lt x (hs.entered_of_mem hx)

theorem enter_entered (targets : List Nat) : Entered g (s.enter w targets) := by
  refine
    { entered_size := by simp [Search.enter, hs.entered_size]
      onStack_size := by simp [Search.enter, hs.onStack_size]
      low_size := by simp [Search.enter, hs.low_size]
      time_lt := fun x hx => ?_
      onStack_iff := fun x => ?_
      entered_iff := fun x => ?_
      not_closed := fun x hx c hc => ?_
      stack_sorted := ?_ }
  · by_cases hxw : x = w
    · subst hxw
      rw [hs.time_enter_self hw]
      exact Nat.lt_succ_self _
    · rw [entry_enter_of_ne s targets hxw] at hx
      rw [time_enter_of_ne s targets hxw]
      exact Nat.lt_succ_of_lt (hs.time_lt x hx)
  · show (s.onStack.setIfInBounds w true).getD x false = true ↔ x ∈ w :: s.stack
    rw [getD_setIfInBounds, hs.onStack_size, List.mem_cons]
    by_cases hxw : x = w
    · simp [hxw, hw]
    · simp only [hxw, false_and, if_false, false_or]
      exact hs.onStack_iff x
  · show _ ↔ x ∈ w :: s.stack ∨ _
    rw [List.mem_cons]
    by_cases hxw : x = w
    · subst hxw
      simp [hs.entry_enter_self hw]
    · rw [entry_enter_of_ne s targets hxw, or_iff_right hxw]
      exact hs.entered_iff x
  · rcases List.mem_cons.1 hx with rfl | hx
    · intro hxc
      exact (hs.entered_iff x).2 (Or.inr ⟨c, hc, hxc⟩) hn
    · exact hs.not_closed x hx c hc
  · refine List.pairwise_cons.2 ⟨fun x hx => hs.time_enter_lt hn hw targets hx,
      hs.stack_sorted.imp_of_mem fun ha hb hlt => ?_⟩
    rwa [hs.time_enter_of_mem hn targets ha, hs.time_enter_of_mem hn targets hb]

theorem enter_framed (hr : ∀ f ∈ s.frames, g.Reaches f.1 w) :
    Framed g (s.enter w (g.next w).toList) := by
  have ht : ∀ f ∈ s.frames, (s.enter w (g.next w).toList).time f.1 = s.time f.1 := fun f hf =>
    hs.time_enter_of_mem hn _ (hs.frame_mem f hf)
  refine
    { frames_sorted := ?_
      frame_mem := fun f hf => ?_
      frame_arc := fun f hf x hx => ?_
      taken := fun x hx y hxy => ?_
      frame_reaches := fun f hf x hx hle => ?_
      below_frame := fun x hx => ?_ }
  · refine List.pairwise_cons.2 ⟨fun f hf => hs.time_enter_lt hn hw _ (hs.frame_mem f hf),
      hs.frames_sorted.imp_of_mem fun ha hb hlt => ?_⟩
    rwa [ht _ ha, ht _ hb]
  · rcases List.mem_cons.1 hf with rfl | hf
    · exact List.mem_cons_self
    · exact List.mem_cons_of_mem w (hs.frame_mem f hf)
  · rcases List.mem_cons.1 hf with rfl | hf
    · exact Std.ExtTreeSet.mem_toList.1 hx
    · exact hs.frame_arc f hf x hx
  · by_cases hxw : x = w
    · subst hxw
      exact Or.inr ⟨_, List.mem_cons_self, rfl, Std.ExtTreeSet.mem_toList.2 hxy⟩
    · rw [entry_enter_of_ne s _ hxw] at hx
      rcases hs.taken x hx y hxy with h | ⟨f, hf, h⟩
      · left
        rw [entry_enter_of_ne s _ fun hyw : y = w => h (hyw ▸ hn)]
        exact h
      · exact Or.inr ⟨f, List.mem_cons_of_mem _ hf, h⟩
  · rcases List.mem_cons.1 hf with rfl | hf'
    · rcases List.mem_cons.1 hx with rfl | hx
      · exact .refl
      · exact absurd (hs.time_enter_lt hn hw _ hx) (Nat.not_lt.2 hle)
    · rcases List.mem_cons.1 hx with hxw | hx
      · exact hxw ▸ hr f hf'
      · rw [ht f hf', hs.time_enter_of_mem hn _ hx] at hle
        exact hs.frame_reaches f hf' x hx hle
  · rcases List.mem_cons.1 hx with rfl | hx
    · exact ⟨_, List.mem_cons_self, Nat.le_refl _⟩
    · obtain ⟨f, hf, hle⟩ := hs.below_frame x hx
      refine ⟨f, List.mem_cons_of_mem _ hf, ?_⟩
      rwa [ht f hf, hs.time_enter_of_mem hn _ hx]

theorem enter_marked : Marked g (s.enter w (g.next w).toList) := by
  have ht : ∀ x ∈ s.stack, (s.enter w (g.next w).toList).time x = s.time x := fun x hx =>
    hs.time_enter_of_mem hn _ hx
  have hl : ∀ x ∈ s.stack, (s.enter w (g.next w).toList).lowOf x = s.lowOf x := fun x hx =>
    hs.lowOf_enter_of_mem hn _ hx
  have hself : (s.enter w (g.next w).toList).lowOf w = (s.enter w (g.next w).toList).time w := by
    rw [hs.lowOf_enter_self hw, hs.time_enter_self hw]
  refine
    { low_le := fun x hx => ?_
      low_reaches := fun x hx => ?_
      low_lt := fun x hx hf => ?_
      low_taken := fun f hf x hx hle y hy hxy hno => ?_ }
  · rcases List.mem_cons.1 hx with rfl | hx
    · exact Nat.le_of_eq hself
    · rw [hl x hx, ht x hx]
      exact hs.low_le x hx
  · rcases List.mem_cons.1 hx with rfl | hx
    · exact ⟨x, List.mem_cons_self, hself.symm, .refl⟩
    · obtain ⟨y, hy, hty, hxy⟩ := hs.low_reaches x hx
      refine ⟨y, List.mem_cons_of_mem w hy, ?_, hxy⟩
      rw [hl x hx, ht y hy, hty]
  · rcases List.mem_cons.1 hx with rfl | hx
    · exact absurd rfl (hf _ List.mem_cons_self)
    · rw [hl x hx, ht x hx]
      exact hs.low_lt x hx fun f hf' => hf f (List.mem_cons_of_mem _ hf')
  · -- the edges of `w` are all still to be taken
    have hxw : x ≠ w := fun h =>
      hno _ List.mem_cons_self h.symm (Std.ExtTreeSet.mem_toList.2 (h ▸ hxy))
    have hx : x ∈ s.stack := (List.mem_cons.1 hx).resolve_left hxw
    have hfx : f ∈ s.frames := by
      rcases List.mem_cons.1 hf with rfl | hf
      · exact absurd (hs.time_enter_lt hn hw _ hx) (Nat.not_lt.2 hle)
      · exact hf
    rw [ht _ (hs.frame_mem f hfx), ht x hx] at hle
    rcases List.mem_cons.1 hy with rfl | hy
    · refine ⟨_, List.mem_cons_self, ?_, Nat.le_of_eq hself⟩
      exact Nat.le_of_lt (hs.time_enter_lt hn hw _ (hs.frame_mem f hfx))
    · obtain ⟨h, hh, h1, h2⟩ := hs.low_taken f hfx x hx hle y hy hxy
        fun h hh => hno h (List.mem_cons_of_mem _ hh)
      refine ⟨h, List.mem_cons_of_mem _ hh, ?_, ?_⟩
      · rwa [ht _ (hs.frame_mem f hfx), ht _ (hs.frame_mem h hh)]
      · rwa [hl _ (hs.frame_mem h hh), ht y hy]

/-- **A node that all frames reach is entered.** -/
theorem enter (hr : ∀ f ∈ s.frames, g.Reaches f.1 w) :
    Valid g (s.enter w (g.next w).toList) where
  toEntered := hs.enter_entered hn hw _
  toFramed := hs.enter_framed hn hw hr
  toMarked := hs.enter_marked hn hw
  ordered := hs.ordered

end

/-! ## Lowering a mark -/

theorem lower (hs : Valid g s) {v bound : Nat}
    (hb : s.lowOf v ≤ bound ∨ ∃ w ∈ s.stack, s.time w = bound ∧ g.Reaches v w) :
    Valid g (s.lower v bound) := by
  have hle : ∀ x, (s.lower v bound).lowOf x ≤ s.lowOf x := fun x => by
    rw [lowOf_lower]
    split
    · next h => exact h ▸ Nat.min_le_left _ _
    · exact Nat.le_refl _
  refine
    { hs with
      low_size := by simp [Search.lower, hs.low_size]
      low_le := fun x hx => Nat.le_trans (hle x) (hs.low_le x hx)
      low_lt := fun x hx hf => Nat.lt_of_le_of_lt (hle x) (hs.low_lt x hx hf)
      low_reaches := fun x hx => ?_
      low_taken := fun f hf x hx h y hy hxy hno => ?_ }
  · rw [lowOf_lower]
    split
    · next hxv =>
      subst hxv
      rcases Nat.le_total (s.lowOf x) bound with hm | hm
      · rw [Nat.min_eq_left hm]
        exact hs.low_reaches x hx
      · rw [Nat.min_eq_right hm]
        rcases hb with hb | hb
        · rw [Nat.le_antisymm hm hb]
          exact hs.low_reaches x hx
        · exact hb
    · exact hs.low_reaches x hx
  · obtain ⟨q, hq, h1, h2⟩ := hs.low_taken f hf x hx h y hy hxy hno
    exact ⟨q, hq, h1, Nat.le_trans (hle q.1) h2⟩

/-! ## Taking an edge -/

section
variable {above below : List (Nat × List Nat)} {v w : Nat} {targets : List Nat}

/-- A frame was there before its edge was taken. -/
theorem mem_frames_before {f : Nat × List Nat} (h : f ∈ above ++ (v, targets) :: below) :
    ∃ f' ∈ above ++ (v, w :: targets) :: below, f'.1 = f.1 ∧ ∀ x ∈ f.2, x ∈ f'.2 := by
  simp only [List.mem_append, List.mem_cons] at h ⊢
  rcases h with h | rfl | h
  · exact ⟨f, Or.inl h, rfl, fun x hx => hx⟩
  · exact ⟨_, Or.inr (Or.inl rfl), rfl, fun x hx => List.mem_cons_of_mem w hx⟩
  · exact ⟨f, Or.inr (Or.inr h), rfl, fun x hx => hx⟩

/-- A frame is still there, with its edges but for the one that was taken. -/
theorem mem_frames_after {f : Nat × List Nat} (h : f ∈ above ++ (v, w :: targets) :: below) :
    ∃ f' ∈ above ++ (v, targets) :: below, f'.1 = f.1 ∧
      ∀ x ∈ f.2, x ∈ f'.2 ∨ f.1 = v ∧ x = w := by
  simp only [List.mem_append, List.mem_cons] at h ⊢
  rcases h with h | rfl | h
  · exact ⟨f, Or.inl h, rfl, fun x hx => Or.inl hx⟩
  · refine ⟨_, Or.inr (Or.inl rfl), rfl, fun x hx => ?_⟩
    rcases List.mem_cons.1 hx with rfl | hx
    · exact Or.inr ⟨rfl, rfl⟩
    · exact Or.inl hx
  · exact ⟨f, Or.inr (Or.inr h), rfl, fun x hx => Or.inl hx⟩

variable (hs : Valid g s) (hf : s.frames = above ++ (v, w :: targets) :: below)
include hs hf

theorem drop_framed (hw : s.entry w ≠ none) :
    Framed g { s with frames := above ++ (v, targets) :: below } := by
  have hold : ∀ f ∈ above ++ (v, targets) :: below,
      ∃ f' ∈ s.frames, f'.1 = f.1 ∧ ∀ x ∈ f.2, x ∈ f'.2 := fun f h => hf ▸ mem_frames_before h
  refine
    { frames_sorted := ?_
      frame_mem := fun f h => ?_
      frame_arc := fun f h x hx => ?_
      taken := fun x hx y hxy => ?_
      frame_reaches := fun f h x hx hle => ?_
      below_frame := fun x hx => ?_ }
  · have hp := hs.frames_sorted
    rw [hf, List.pairwise_append, List.pairwise_cons] at hp
    rw [List.pairwise_append, List.pairwise_cons]
    refine ⟨hp.1, hp.2.1, fun a ha b hb => ?_⟩
    rcases List.mem_cons.1 hb with rfl | hb
    · exact hp.2.2 a ha (v, w :: targets) List.mem_cons_self
    · exact hp.2.2 a ha b (List.mem_cons_of_mem _ hb)
  · obtain ⟨f', h', he, -⟩ := hold f h
    exact he ▸ hs.frame_mem f' h'
  · obtain ⟨f', h', he, hsub⟩ := hold f h
    exact he ▸ hs.frame_arc f' h' x (hsub x hx)
  · rcases hs.taken x hx y hxy with h | ⟨f', h', he, hy⟩
    · exact Or.inl h
    · obtain ⟨f, h, he', hsub⟩ := mem_frames_after (hf ▸ h')
      rcases hsub y hy with hy | ⟨-, rfl⟩
      · exact Or.inr ⟨f, h, he'.trans he, hy⟩
      · exact Or.inl hw
  · obtain ⟨f', h', he, -⟩ := hold f h
    exact he ▸ hs.frame_reaches f' h' x hx (he ▸ hle)
  · obtain ⟨f', h', hle⟩ := hs.below_frame x hx
    obtain ⟨f, h, he, -⟩ := mem_frames_after (hf ▸ h')
    exact ⟨f, h, he ▸ hle⟩

theorem drop_marked
    (hk : w ∈ s.stack → ∃ h ∈ s.frames, s.time v ≤ s.time h.1 ∧ s.lowOf h.1 ≤ s.time w) :
    Marked g { s with frames := above ++ (v, targets) :: below } := by
  refine
    { hs.toMarked with
      low_lt := fun x hx hne => ?_
      low_taken := fun f h x hx hle y hy hxy hno => ?_ }
  · refine hs.low_lt x hx fun f' h' => ?_
    obtain ⟨f, h, he, -⟩ := mem_frames_after (hf ▸ h')
    exact he ▸ hne f h
  · obtain ⟨f', h', he, -⟩ := mem_frames_before (w := w) h
    rw [← hf] at h'
    obtain ⟨q', hq', h1, h2⟩ : ∃ q ∈ s.frames,
        s.time f.1 ≤ s.time q.1 ∧ s.lowOf q.1 ≤ s.time y := by
      by_cases hvw : x = v ∧ y = w
      · obtain ⟨rfl, rfl⟩ := hvw
        obtain ⟨q, hq, h1, h2⟩ := hk hy
        exact ⟨q, hq, Nat.le_trans hle h1, h2⟩
      · rw [← he]
        refine hs.low_taken f' h' x hx (he ▸ hle) y hy hxy fun q' hq' hqx hyq => ?_
        obtain ⟨q, hq, hqe, hsub⟩ := mem_frames_after (hf ▸ hq')
        rcases hsub y hyq with hyq | ⟨hqv, hyw⟩
        · exact hno q hq (hqe.trans hqx) hyq
        · exact hvw ⟨hqx.symm.trans hqv, hyw⟩
    obtain ⟨q, hq, hqe, -⟩ := mem_frames_after (hf ▸ hq')
    exact ⟨q, hq, hqe ▸ h1, hqe ▸ h2⟩

/-- **An edge to a node that was entered is taken** by its frame, when that frame or one
    above it knows where it leads. -/
theorem drop (hw : s.entry w ≠ none)
    (hk : w ∈ s.stack → ∃ h ∈ s.frames, s.time v ≤ s.time h.1 ∧ s.lowOf h.1 ≤ s.time w) :
    Valid g { s with frames := above ++ (v, targets) :: below } :=
  { hs with
    toFramed := hs.drop_framed hf hw
    toMarked := hs.drop_marked hf hk }

end

/-! ## Leaving a node -/

section
variable {v : Nat} {frames : List (Nat × List Nat)} (hs : Valid g s)
  (hf : s.frames = (v, []) :: frames)
include hs hf

/-- No edge is left to the top frame. -/
theorem taken_below {x y : Nat} (hx : s.entry x ≠ none) (hxy : g.Arc x y) :
    s.entry y ≠ none ∨ ∃ f ∈ frames, f.1 = x ∧ y ∈ f.2 := by
  rcases hs.taken x hx y hxy with h | ⟨f, hfm, he, hy⟩
  · exact Or.inl h
  · rw [hf] at hfm
    rcases List.mem_cons.1 hfm with rfl | hfm
    · simp at hy
    · exact Or.inr ⟨f, hfm, he, hy⟩

theorem low_lt_below {x : Nat} (hx : x ∈ s.stack) (hxv : x ≠ v) (hne : ∀ f ∈ frames, f.1 ≠ x) :
    s.lowOf x < s.time x := by
  refine hs.low_lt x hx fun f hfm => ?_
  rw [hf] at hfm
  rcases List.mem_cons.1 hfm with rfl | hfm
  · exact Ne.symm hxv
  · exact hne f hfm

theorem low_taken_below {f : Nat × List Nat} (hfm : f ∈ frames) {x y : Nat} (hx : x ∈ s.stack)
    (hle : s.time f.1 ≤ s.time x) (hy : y ∈ s.stack) (hxy : g.Arc x y)
    (hno : ∀ h ∈ frames, h.1 = x → y ∉ h.2) :
    s.lowOf v ≤ s.time y ∨ ∃ h ∈ frames, s.time f.1 ≤ s.time h.1 ∧ s.lowOf h.1 ≤ s.time y := by
  obtain ⟨h, hh, h1, h2⟩ := hs.low_taken f (mem_frames_of_below hf hfm) x hx hle y hy hxy
    fun h hh hhx => by
      rw [hf] at hh
      rcases List.mem_cons.1 hh with rfl | hh
      · simp
      · exact hno h hh hhx
  rw [hf] at hh
  rcases List.mem_cons.1 hh with rfl | hh
  · exact Or.inl h2
  · exact Or.inr ⟨h, hh, h1, h2⟩

end

/-- **A node that reaches an earlier one is left**, when the frame below it knows that one. -/
theorem leave (hs : Valid g s) {v : Nat} {f : Nat × List Nat} {frames : List (Nat × List Nat)}
    (hf : s.frames = (v, []) :: f :: frames) (hlt : s.lowOf v < s.time v)
    (hlow : s.lowOf f.1 ≤ s.lowOf v) :
    Valid g { s with frames := f :: frames } := by
  have hsub : ∀ h ∈ f :: frames, h ∈ s.frames := fun h hh => mem_frames_of_below hf hh
  have hft : s.time f.1 < s.time v := time_lt_top hf hs List.mem_cons_self
  have hsort := frames_sorted_below hf hs
  refine
    { hs with
      frames_sorted := hsort
      frame_mem := fun h hh => hs.frame_mem h (hsub h hh)
      frame_arc := fun h hh => hs.frame_arc h (hsub h hh)
      taken := fun x hx y hxy => hs.taken_below hf hx hxy
      frame_reaches := fun h hh => hs.frame_reaches h (hsub h hh)
      below_frame := fun x hx => ?_
      low_lt := fun x hx hne => ?_
      low_taken := fun h hh x hx hle y hy hxy hno => ?_ }
  · obtain ⟨h, hh, hle⟩ := hs.below_frame x hx
    rw [hf] at hh
    rcases List.mem_cons.1 hh with rfl | hh
    · exact ⟨f, List.mem_cons_self, Nat.le_trans (Nat.le_of_lt hft) hle⟩
    · exact ⟨h, hh, hle⟩
  · by_cases hxv : x = v
    · subst hxv
      exact hlt
    · exact hs.low_lt_below hf hx hxv hne
  · rcases hs.low_taken_below hf hh hx hle hy hxy hno with hv | hq
    · refine ⟨f, List.mem_cons_self, ?_, Nat.le_trans hlow hv⟩
      rcases List.mem_cons.1 hh with rfl | hh
      · exact Nat.le_refl _
      · exact Nat.le_of_lt ((List.pairwise_cons.1 hsort).1 h hh)
    · exact hq

/-! ## Closing a component -/

/-- The stack around the top frame: what was entered since, and what was entered before. -/
theorem stack_split (hs : Valid g s) {v : Nat} (hv : v ∈ s.stack) :
    ∃ older, s.stack = s.stack.takeWhile (· != v) ++ v :: older ∧
      (∀ x, x ∈ v :: s.stack.takeWhile (· != v) ↔ x ∈ s.stack ∧ s.time v ≤ s.time x) ∧
      ∀ x, x ∈ older ↔ x ∈ s.stack ∧ s.time x < s.time v := by
  obtain ⟨later, older, hst, hnl⟩ := List.eq_append_cons_of_mem hv
  have htw : s.stack.takeWhile (· != v) = later := by
    rw [hst, List.takeWhile_append_of_pos, List.takeWhile_cons_of_neg, List.append_nil]
    · simp
    · intro x hx
      simpa using fun h : x = v => hnl (h ▸ hx)
  have hp := hs.stack_sorted
  rw [hst, List.pairwise_append, List.pairwise_cons] at hp
  obtain ⟨-, ⟨ho, -⟩, hl⟩ := hp
  rw [htw]
  refine ⟨older, hst, fun x => ?_, fun x => ?_⟩
  · rw [hst, List.mem_append, List.mem_cons, List.mem_cons]
    constructor
    · rintro (rfl | hx)
      · exact ⟨Or.inr (Or.inl rfl), Nat.le_refl _⟩
      · exact ⟨Or.inl hx, Nat.le_of_lt (hl x hx v List.mem_cons_self)⟩
    · rintro ⟨hx | rfl | hx, hle⟩
      · exact Or.inr hx
      · exact Or.inl rfl
      · exact absurd (ho x hx) (Nat.not_lt.2 hle)
  · rw [hst, List.mem_append, List.mem_cons]
    constructor
    · exact fun hx => ⟨Or.inr (Or.inr hx), ho x hx⟩
    · rintro ⟨hx | rfl | hx, hlt⟩
      · exact absurd (hl x hx v List.mem_cons_self) (Nat.not_lt.2 (Nat.le_of_lt hlt))
      · exact absurd hlt (Nat.lt_irrefl _)
      · exact hx

section
variable {v : Nat} (hs : Valid g s) (hv : v ∈ s.stack)
include hs hv

theorem mem_component {x : Nat} : x ∈ v :: s.stack.takeWhile (· != v) ↔
    x ∈ s.stack ∧ s.time v ≤ s.time x := by
  obtain ⟨older, -, hc, -⟩ := hs.stack_split hv
  exact hc x

theorem mem_stack_close {x : Nat} :
    x ∈ (s.close v).stack ↔ x ∈ s.stack ∧ s.time x < s.time v := by
  obtain ⟨older, hst, -, ho⟩ := hs.stack_split hv
  have hdrop : ∀ l later : List Nat, l = later ++ v :: older → l.drop (v :: later).length = older := by
    rintro _ later rfl
    simp
  rw [← ho, ← hdrop _ _ hst]
  rfl

theorem nodup_component : (v :: s.stack.takeWhile (· != v)).Nodup := by
  obtain ⟨older, hst, -, -⟩ := hs.stack_split hv
  have hnd : s.stack.Nodup := hs.stack_sorted.imp fun {a b} hlt he => by
    rw [he] at hlt
    exact Nat.lt_irrefl _ hlt
  rw [hst, List.nodup_append, List.nodup_cons] at hnd
  exact List.nodup_cons.2 ⟨fun h => hnd.2.2 v h v List.mem_cons_self rfl, hnd.1⟩

end

section
variable {v : Nat} {frames : List (Nat × List Nat)}

/-- The edges of what was entered since the top node lead there too, or to closed
    components: the node knows of no earlier one. -/
theorem arc_since (hs : Valid g s) (hf : s.frames = (v, []) :: frames)
    (hroot : s.lowOf v = s.time v) {x : Nat} (hx : x ∈ s.stack) (hle : s.time v ≤ s.time x)
    {w : Nat} (hxw : g.Arc x w) :
    (w ∈ s.stack ∧ s.time v ≤ s.time w) ∨ ∃ c ∈ s.closed, w ∈ c := by
  have hvm : (v, []) ∈ s.frames := top_mem hf
  -- a frame with an edge of `x` to take is that of `v`, which has none
  have hno : ∀ h ∈ s.frames, h.1 = x → w ∉ h.2 := by
    rintro h hh rfl hw
    have ht := Nat.le_antisymm hle (time_le_top hf hs hh)
    rw [← hs.frame_unique hvm hh (hs.time_inj (hs.frame_mem _ hvm) hx ht)] at hw
    simp at hw
  have hw : s.entry w ≠ none := by
    rcases hs.taken x (hs.entered_of_mem hx) w hxw with h | ⟨h, hh, he, hw⟩
    · exact h
    · exact absurd hw (hno h hh he)
  rcases (hs.entered_iff w).1 hw with hw | hw
  · obtain ⟨h, hh, h1, h2⟩ := hs.low_taken _ hvm x hx hle w hw hxw hno
    have ht := Nat.le_antisymm h1 (time_le_top hf hs hh)
    rw [← hs.time_inj (hs.frame_mem _ hvm) (hs.frame_mem h hh) ht, hroot] at h2
    exact Or.inl ⟨hw, h2⟩
  · exact Or.inr hw

theorem reaches_since (hs : Valid g s) (hf : s.frames = (v, []) :: frames)
    (hroot : s.lowOf v = s.time v) {x y : Nat} (hx : x ∈ s.stack) (hle : s.time v ≤ s.time x)
    (hxy : g.Reaches x y) : (y ∈ s.stack ∧ s.time v ≤ s.time y) ∨ ∃ c ∈ s.closed, y ∈ c := by
  induction hxy with
  | refl => exact Or.inl ⟨hx, hle⟩
  | tail _ hyz ih =>
    rcases ih with ⟨hy, hle⟩ | ⟨c, hc, hy⟩
    · exact hs.arc_since hf hroot hy hle hyz
    · exact Or.inr (hs.ordered.arc_mem hc hy hyz)

/-- What was entered since the top node reaches it, when it knows of no earlier one. -/
theorem reaches_top (hs : Valid g s) (hf : s.frames = (v, []) :: frames)
    (hroot : s.lowOf v = s.time v) {x : Nat} (hx : x ∈ s.stack) (hle : s.time v ≤ s.time x) :
    g.Reaches x v := by
  have hv : v ∈ s.stack := top_mem_stack hf hs
  induction ht : s.time x using Nat.strongRecOn generalizing x with
  | ind t ih =>
    rcases Nat.eq_or_lt_of_le hle with h | h
    · rw [hs.time_inj hv hx h]
    · have hlt := hs.low_lt x hx fun f hfm hfx =>
        Nat.not_lt.2 (time_le_top hf hs hfm) (by rwa [hfx])
      obtain ⟨w, hw, htw, hxw⟩ := hs.low_reaches x hx
      rcases hs.reaches_since hf hroot hx hle hxw with ⟨-, hvw⟩ | ⟨c, hc, hwc⟩
      · exact hxw.trans (ih (s.time w) (by omega) hw hvw rfl)
      · exact absurd hwc (hs.not_closed w hw c hc)

/-- The component of the node on top. -/
theorem close_ordered (hs : Valid g s) (hf : s.frames = (v, []) :: frames)
    (hroot : s.lowOf v = s.time v) : Ordered g (s.close v).closed := by
  have hc : ∀ x, x ∈ v :: s.stack.takeWhile (· != v) ↔ x ∈ s.stack ∧ s.time v ≤ s.time x :=
    fun x => hs.mem_component (top_mem_stack hf hs)
  refine .cons (List.cons_ne_nil _ _) (hs.nodup_component (top_mem_stack hf hs))
    (fun x hx y hy => ?_) (fun x hx d hd => ?_) (fun x hx w hxw => ?_) hs.ordered
  · obtain ⟨hx, hlx⟩ := (hc x).1 hx
    obtain ⟨hy, hly⟩ := (hc y).1 hy
    have hvm : (v, []) ∈ s.frames := top_mem hf
    exact (hs.reaches_top hf hroot hx hlx).trans (hs.frame_reaches _ hvm y hy hly)
  · exact hs.not_closed x ((hc x).1 hx).1 d hd
  · obtain ⟨hx, hlx⟩ := (hc x).1 hx
    rcases hs.arc_since hf hroot hx hlx hxw with h | h
    · exact Or.inl ((hc w).2 h)
    · exact Or.inr h

theorem close_entered (hs : Valid g s) (hv : v ∈ s.stack) :
    Entered g { s.close v with frames := frames } := by
  have hc : ∀ x, x ∈ v :: s.stack.takeWhile (· != v) ↔ x ∈ s.stack ∧ s.time v ≤ s.time x :=
    fun x => hs.mem_component hv
  refine
    { entered_size := hs.entered_size
      onStack_size := ?_
      low_size := hs.low_size
      time_lt := hs.time_lt
      onStack_iff := fun x => ?_
      entered_iff := fun x => ?_
      not_closed := fun x hx c hcm => ?_
      stack_sorted := hs.stack_sorted.sublist (List.drop_sublist _ _) }
  · show (_ : Array Bool).size = g.size
    simp [Search.close, hs.onStack_size]
  · show (List.foldl (fun on w => on.setIfInBounds w false) s.onStack
        (v :: s.stack.takeWhile (· != v))).getD x false = true ↔ x ∈ (s.close v).stack
    rw [getD_foldl_set, hs.mem_stack_close hv]
    have hiff := hs.onStack_iff x
    by_cases hxc : x ∈ v :: s.stack.takeWhile (· != v)
    · have hxc' := (hc x).1 hxc
      have hlt : x < s.onStack.size := lt_size_of_getD (hiff.2 hxc'.1)
      rw [if_pos ⟨hxc, hlt⟩]
      simp [hxc'.2]
    · rw [if_neg fun h => hxc h.1, hiff]
      constructor
      · exact fun hx => ⟨hx, Nat.lt_of_not_le fun h => hxc ((hc x).2 ⟨hx, h⟩)⟩
      · exact fun h => h.1
  · show s.entry x ≠ none ↔ x ∈ (s.close v).stack ∨
      ∃ c ∈ (v :: s.stack.takeWhile (· != v)) :: s.closed, x ∈ c
    rw [hs.entered_iff, hs.mem_stack_close hv, List.exists_mem_cons_iff, hc]
    constructor
    · rintro (hx | hx)
      · rcases Nat.lt_or_ge (s.time x) (s.time v) with h | h
        · exact Or.inl ⟨hx, h⟩
        · exact Or.inr (Or.inl ⟨hx, h⟩)
      · exact Or.inr (Or.inr hx)
    · rintro (⟨hx, -⟩ | ⟨hx, -⟩ | hx)
      · exact Or.inl hx
      · exact Or.inl hx
      · exact Or.inr hx
  · obtain ⟨hx, hlt⟩ := (hs.mem_stack_close hv).1 hx
    rcases List.mem_cons.1 hcm with rfl | hcm
    · rw [hc]
      exact fun h => Nat.not_lt.2 h.2 hlt
    · exact hs.not_closed x hx c hcm

theorem close_framed (hs : Valid g s) (hf : s.frames = (v, []) :: frames) :
    Framed g { s.close v with frames := frames } := by
  have ho : ∀ {x}, x ∈ (s.close v).stack ↔ x ∈ s.stack ∧ s.time x < s.time v :=
    hs.mem_stack_close (top_mem_stack hf hs)
  have hsub : ∀ h ∈ frames, h ∈ s.frames := fun h hh => mem_frames_of_below hf hh
  have hsort := frames_sorted_below hf hs
  refine
    { frames_sorted := hsort
      frame_mem := fun h hh => ho.2 ⟨hs.frame_mem h (hsub h hh), time_lt_top hf hs hh⟩
      frame_arc := fun h hh => hs.frame_arc h (hsub h hh)
      taken := fun x hx y hxy => hs.taken_below hf hx hxy
      frame_reaches := fun h hh x hx => hs.frame_reaches h (hsub h hh) x (ho.1 hx).1
      below_frame := fun x hx => ?_ }
  obtain ⟨hx, hlt⟩ := ho.1 hx
  obtain ⟨h, hh, hle⟩ := hs.below_frame x hx
  rw [hf] at hh
  rcases List.mem_cons.1 hh with rfl | hh
  · exact absurd hlt (Nat.not_lt.2 hle)
  · exact ⟨h, hh, hle⟩

theorem close_marked (hs : Valid g s) (hf : s.frames = (v, []) :: frames)
    (hroot : s.lowOf v = s.time v) : Marked g { s.close v with frames := frames } := by
  have ho : ∀ {x}, x ∈ (s.close v).stack ↔ x ∈ s.stack ∧ s.time x < s.time v :=
    hs.mem_stack_close (top_mem_stack hf hs)
  refine
    { low_le := fun x hx => hs.low_le x (ho.1 hx).1
      low_reaches := fun x hx => ?_
      low_lt := fun x hx hne => ?_
      low_taken := fun h hh x hx hle y hy hxy hno => ?_ }
  · obtain ⟨hx, hlt⟩ := ho.1 hx
    obtain ⟨w, hw, htw, hxw⟩ := hs.low_reaches x hx
    refine ⟨w, ho.2 ⟨hw, ?_⟩, htw, hxw⟩
    have := hs.low_le x hx
    omega
  · obtain ⟨hx, hlt⟩ := ho.1 hx
    refine hs.low_lt_below hf hx ?_ hne
    rintro rfl
    exact Nat.lt_irrefl _ hlt
  · obtain ⟨hy, hlt⟩ := ho.1 hy
    rcases hs.low_taken_below hf hh (ho.1 hx).1 hle hy hxy hno with hv | hq
    · rw [hroot] at hv
      exact absurd hlt (Nat.not_lt.2 hv)
    · exact hq

/-- **A component is closed** when the node on top has no edge to take and knows of no
    earlier node. -/
theorem close (hs : Valid g s) (hf : s.frames = (v, []) :: frames)
    (hroot : s.lowOf v = s.time v) : Valid g { s.close v with frames := frames } where
  toEntered := hs.close_entered (top_mem_stack hf hs)
  toFramed := hs.close_framed hf
  toMarked := hs.close_marked hf hroot
  ordered := hs.close_ordered hf hroot

end

end Valid

end Search

end Rebuild
