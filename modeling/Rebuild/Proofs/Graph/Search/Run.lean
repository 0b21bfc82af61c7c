/-
  A search keeps the invariant to its end, and it ends.

  * `Valid.step`: a step keeps the invariant, whichever change it makes;
  * `Search.pending` counts the edges and frames still to be taken: every step takes one
    (`pending_step`), so that many steps leave no frame (`run_spec`).
-/
import Mathlib.Algebra.Order.BigOperators.Ring.Finset
import Rebuild.Proofs.Graph.Search.Moves

namespace Rebuild

open Relation

namespace Search

/-! ## What a step is -/

section
variable {g : Graph} {s : Search} {v w t : Nat} {targets : List Nat}
  {frames : List (Nat × List Nat)}

theorem step_of_none (hf : s.frames = []) : s.step g = s := by
  unfold step
  rw [hf]

theorem step_new (hf : s.frames = (v, w :: targets) :: frames) (he : s.entry w = none) :
    s.step g = { s.enter w (g.next w).toList with
      frames := (w, (g.next w).toList) :: (v, targets) :: frames } := by
  have he' : { s with frames := (v, targets) :: frames }.entry w = none := he
  unfold step
  rw [hf]
  dsimp only
  rw [he']
  rfl

theorem step_onStack (hf : s.frames = (v, w :: targets) :: frames) (he : s.entry w = some t)
    (hon : s.onStack.getD w false = true) :
    s.step g = { s.lower v t with frames := (v, targets) :: frames } := by
  have he' : { s with frames := (v, targets) :: frames }.entry w = some t := he
  unfold step
  rw [hf]
  dsimp only
  rw [he']
  dsimp only
  rw [if_pos hon]
  rfl

theorem step_closed (hf : s.frames = (v, w :: targets) :: frames) (he : s.entry w = some t)
    (hon : s.onStack.getD w false ≠ true) :
    s.step g = { s with frames := (v, targets) :: frames } := by
  have he' : { s with frames := (v, targets) :: frames }.entry w = some t := he
  unfold step
  rw [hf]
  dsimp only
  rw [he']
  dsimp only
  rw [if_neg hon]

theorem step_root (hf : s.frames = (v, []) :: frames) (he : s.entry v = some (s.lowOf v)) :
    s.step g = { s.close v with frames := frames }.lowerTop (s.lowOf v) := by
  have he' : { s with frames := frames }.entry v = some (s.lowOf v) := he
  unfold step
  rw [hf]
  dsimp only
  rw [if_pos he']
  rfl

theorem step_leave (hf : s.frames = (v, []) :: frames) (he : s.entry v ≠ some (s.lowOf v)) :
    s.step g = { s with frames := frames }.lowerTop (s.lowOf v) := by
  have he' : { s with frames := frames }.entry v ≠ some (s.lowOf v) := he
  unfold step
  rw [hf]
  dsimp only
  rw [if_neg he']

end

namespace Valid

variable {g : Graph} {s : Search}

/-! ## Steps -/

theorem time_of_entry {v t : Nat} (h : s.entry v = some t) : s.time v = t := by simp [time, h]

theorem entry_eq (hs : Valid g s) {v : Nat} (hv : v ∈ s.stack) : s.entry v = some (s.time v) := by
  obtain ⟨t, he⟩ := Option.ne_none_iff_exists'.1 (hs.entered_of_mem hv)
  rw [he, time_of_entry he]

section
variable {v : Nat} {frames : List (Nat × List Nat)}

/-- A node on top that knows of an earlier one has a frame below it. -/
theorem frames_ne_nil (hs : Valid g s) (hf : s.frames = (v, []) :: frames)
    (hlt : s.lowOf v < s.time v) : frames ≠ [] := by
  rintro rfl
  obtain ⟨w, hw, htw, -⟩ := hs.low_reaches v (top_mem_stack hf hs)
  obtain ⟨f, hfm, hle⟩ := hs.below_frame w hw
  rw [hf, List.mem_singleton] at hfm
  rw [hfm, htw] at hle
  exact Nat.not_lt.2 hle hlt

/-- The top node closes its component. -/
theorem step_root (hs : Valid g s) (hf : s.frames = (v, []) :: frames)
    (hroot : s.lowOf v = s.time v) : Valid g (s.step g) := by
  have hv : v ∈ s.stack := top_mem_stack hf hs
  have hc := hs.close hf hroot
  rw [Search.step_root hf (by rw [hs.entry_eq hv, hroot])]
  cases frames with
  | nil => exact hc
  | cons f frames =>
    refine hc.lower (Or.inl ?_)
    show s.lowOf f.1 ≤ s.lowOf v
    rw [hroot]
    have hfm := hs.frame_mem f (mem_frames_of_below hf List.mem_cons_self)
    exact Nat.le_trans (hs.low_le f.1 hfm) (Nat.le_of_lt (time_lt_top hf hs List.mem_cons_self))

/-- The top node is left, and the node below it learns what it knows. -/
theorem step_leave (hs : Valid g s) (hf : s.frames = (v, []) :: frames)
    (hlt : s.lowOf v < s.time v) : Valid g (s.step g) := by
  have hv : v ∈ s.stack := top_mem_stack hf hs
  have hne : s.entry v ≠ some (s.lowOf v) := by
    rw [hs.entry_eq hv]
    exact fun h => Nat.ne_of_gt hlt (Option.some.inj h)
  rw [Search.step_leave hf hne]
  cases frames with
  | nil => exact absurd rfl (hs.frames_ne_nil hf hlt)
  | cons f frames =>
    have hfm : f ∈ s.frames := mem_frames_of_below hf List.mem_cons_self
    have hft : s.time f.1 < s.time v := time_lt_top hf hs List.mem_cons_self
    have hl : Valid g (s.lower f.1 (s.lowOf v)) := by
      obtain ⟨w, hw, htw, hvw⟩ := hs.low_reaches v hv
      exact hs.lower (Or.inr ⟨w, hw, htw,
        (hs.frame_reaches f hfm v hv (Nat.le_of_lt hft)).trans hvw⟩)
    have hvf : v ≠ f.1 := by
      rintro rfl
      exact Nat.lt_irrefl _ hft
    refine hl.leave (v := v) hf ?_ ?_
    · rw [lowOf_lower, if_neg hvf]
      exact hlt
    · rw [lowOf_lower, lowOf_lower, if_pos rfl, if_neg hvf]
      exact Nat.min_le_right _ _

variable {w : Nat} {targets : List Nat}

/-- An edge to a new node is taken. -/
theorem step_new (hg : g.WellFormed) (hs : Valid g s)
    (hf : s.frames = (v, w :: targets) :: frames) (he : s.entry w = none) :
    Valid g (s.step g) := by
  have hvm : (v, w :: targets) ∈ s.frames := top_mem hf
  have hv : v ∈ s.stack := hs.frame_mem _ hvm
  have hvw : g.Arc v w := hs.frame_arc _ hvm w List.mem_cons_self
  have hw : w < g.size := hg.next_lt v w hvw
  have hn := hs.enter he hw fun f h =>
    (hs.frame_reaches f h v hv (time_le_top hf hs h)).tail hvw
  rw [Search.step_new hf he]
  have hf' : (s.enter w (g.next w).toList).frames =
      [(w, (g.next w).toList)] ++ (v, w :: targets) :: frames :=
    congrArg ((w, (g.next w).toList) :: ·) hf
  refine hn.drop hf' (hn.entered_of_mem List.mem_cons_self) fun _ => ?_
  exact ⟨_, List.mem_cons_self,
    Nat.le_of_lt ((List.pairwise_cons.1 hn.stack_sorted).1 v hv), hn.low_le w List.mem_cons_self⟩

/-- An edge to a node that was entered is taken. -/
theorem step_old (hs : Valid g s) (hf : s.frames = (v, w :: targets) :: frames)
    (he : s.entry w ≠ none) : Valid g (s.step g) := by
  have hvm : (v, w :: targets) ∈ s.frames := top_mem hf
  obtain ⟨t, ht⟩ := Option.ne_none_iff_exists'.1 he
  by_cases hon : s.onStack.getD w false = true
  · have hw := (hs.onStack_iff w).1 hon
    have htw := time_of_entry ht
    have hl := hs.lower (Or.inr ⟨w, hw, htw, .single (hs.frame_arc _ hvm w List.mem_cons_self)⟩)
    rw [Search.step_onStack hf ht hon]
    have hf' : (s.lower v t).frames = [] ++ (v, w :: targets) :: frames := hf
    refine hl.drop hf' he fun _ => ⟨_, hvm, Nat.le_refl _, ?_⟩
    rw [lowOf_lower, if_pos rfl, ← htw]
    exact Nat.min_le_right _ _
  · rw [Search.step_closed hf ht hon]
    have hf' : s.frames = [] ++ (v, w :: targets) :: frames := hf
    exact hs.drop hf' he fun hw => absurd ((hs.onStack_iff w).2 hw) hon

end

/-- **A step keeps the invariant.** -/
theorem step (hg : g.WellFormed) (hs : Valid g s) : Valid g (s.step g) := by
  match hf : s.frames with
  | [] => rwa [step_of_none hf]
  | (v, []) :: frames =>
    have hv : v ∈ s.stack := top_mem_stack hf hs
    rcases Nat.eq_or_lt_of_le (hs.low_le v hv) with h | h
    · exact hs.step_root hf h
    · exact hs.step_leave hf h
  | (v, w :: targets) :: frames =>
    by_cases he : s.entry w = none
    · exact hs.step_new hg hf he
    · exact hs.step_old hf he

end Valid

/-! ## How many steps there are -/

/-- The edges and frames that are still to be taken: those of the frames, and those of
    the nodes that are not entered. -/
def pending (g : Graph) (s : Search) : Nat :=
  (s.frames.map (·.2.length + 1)).sum +
    ∑ v ∈ Finset.range g.size, if s.entry v = none then (g.next v).size + 1 else 0

theorem pending_frames (g : Graph) (s : Search) (frames : List (Nat × List Nat)) :
    { s with frames := frames }.pending g = (frames.map (·.2.length + 1)).sum +
      ∑ v ∈ Finset.range g.size, if s.entry v = none then (g.next v).size + 1 else 0 := rfl

/-- Entering a node moves its edges to a frame. -/
theorem pending_enter {g : Graph} {s : Search} (hsize : s.entered.size = g.size) {w : Nat}
    (hw : w < g.size) (he : s.entry w = none) :
    (s.enter w (g.next w).toList).pending g = s.pending g := by
  have hwm : w ∈ Finset.range g.size := Finset.mem_range.2 hw
  unfold pending
  rw [← Finset.add_sum_erase _ _ hwm, ← Finset.add_sum_erase _ _ hwm]
  have hrest : ∀ v ∈ (Finset.range g.size).erase w,
      (if (s.enter w (g.next w).toList).entry v = none then (g.next v).size + 1 else 0) =
        if s.entry v = none then (g.next v).size + 1 else 0 := fun v hv => by
    have hne : ¬ (v = w ∧ v < s.entered.size) := fun h => Finset.ne_of_mem_erase hv h.1
    rw [entry_enter, if_neg hne]
  have hself : (s.enter w (g.next w).toList).entry w ≠ none := by
    rw [entry_enter, hsize, if_pos ⟨rfl, hw⟩]
    simp
  rw [Finset.sum_congr rfl hrest, if_neg hself, if_pos he]
  simp only [Search.enter, List.map_cons, List.sum_cons, Std.ExtTreeSet.length_toList]
  omega

theorem frames_lowerTop (s : Search) (bound : Nat) : (s.lowerTop bound).frames = s.frames := by
  unfold lowerTop
  split <;> rfl

theorem entry_lowerTop (s : Search) (bound v : Nat) :
    (s.lowerTop bound).entry v = s.entry v := by
  unfold lowerTop
  split <;> rfl

theorem entry_enter_ne {s : Search} {v : Nat} (w : Nat) (targets : List Nat)
    (h : s.entry v ≠ none) :
    (s.enter w targets).entry v ≠ none := by
  rw [entry_enter]
  split
  · simp
  · exact h

/-- **A step takes an edge or a frame**, and what was entered stays so. -/
theorem pending_step {g : Graph} {s : Search} (hg : g.WellFormed) (hs : Valid g s)
    (hne : s.frames ≠ []) :
    (s.step g).pending g + 1 = s.pending g ∧ ∀ v, s.entry v ≠ none → (s.step g).entry v ≠ none := by
  match hf : s.frames with
  | [] => exact absurd hf hne
  | (v, []) :: frames =>
    have h : (s.step g).frames = frames ∧ ∀ x, (s.step g).entry x = s.entry x := by
      by_cases he : s.entry v = some (s.lowOf v)
      · rw [step_root hf he]
        exact ⟨frames_lowerTop _ _, fun x => entry_lowerTop _ _ x⟩
      · rw [step_leave hf he]
        exact ⟨frames_lowerTop _ _, fun x => entry_lowerTop _ _ x⟩
    refine ⟨?_, fun x hx => by rwa [h.2]⟩
    simp only [pending, h.1, h.2, hf, List.map_cons, List.sum_cons, List.length_nil]
    omega
  | (v, w :: targets) :: frames =>
    by_cases he : s.entry w = none
    · have hvm : (v, w :: targets) ∈ s.frames := Valid.top_mem hf
      have hw : w < g.size := hg.next_lt v w (hs.frame_arc _ hvm w List.mem_cons_self)
      rw [step_new hf he]
      refine ⟨?_, fun x hx => entry_enter_ne w (g.next w).toList hx⟩
      rw [← pending_enter hs.entered_size hw he]
      have hf' : (s.enter w (g.next w).toList).frames =
          (w, (g.next w).toList) :: (v, w :: targets) :: frames :=
        congrArg ((w, (g.next w).toList) :: ·) hf
      rw [pending_frames, pending, hf']
      simp only [List.map_cons, List.sum_cons, List.length_cons]
      omega
    · obtain ⟨t, ht⟩ := Option.ne_none_iff_exists'.1 he
      have h : (s.step g).frames = (v, targets) :: frames ∧
          ∀ x, (s.step g).entry x = s.entry x := by
        by_cases hon : s.onStack.getD w false = true
        · rw [step_onStack hf ht hon]
          exact ⟨rfl, fun x => rfl⟩
        · rw [step_closed hf ht hon]
          exact ⟨rfl, fun x => rfl⟩
      refine ⟨?_, fun x hx => by rwa [h.2]⟩
      simp only [pending, h.1, h.2, hf, List.map_cons, List.sum_cons, List.length_cons]
      omega

/-- **A search ends**: with as many steps as are pending no frame is left. -/
theorem run_spec {g : Graph} (hg : g.WellFormed) (n : Nat) {s : Search} (hs : Valid g s)
    (hn : s.pending g ≤ n) :
    Valid g (run g n s) ∧ (run g n s).frames = [] ∧
      ∀ v, s.entry v ≠ none → (run g n s).entry v ≠ none := by
  induction n generalizing s with
  | zero =>
    refine ⟨hs, ?_, fun v hv => hv⟩
    show s.frames = []
    by_contra hne
    have := (pending_step hg hs hne).1
    omega
  | succ n ih =>
    by_cases hf : s.frames = []
    · have hr : run g (n + 1) s = s := by simp [run, hf]
      rw [hr]
      exact ⟨hs, hf, fun v hv => hv⟩
    · obtain ⟨h1, h2⟩ := pending_step hg hs hf
      have hr : run g (n + 1) s = run g n (s.step g) := by simp [run, hf]
      obtain ⟨h3, h4, h5⟩ := ih (hs.step hg) (by omega)
      rw [hr]
      exact ⟨h3, h4, fun v hv => h5 v (h2 v hv)⟩

end Search

end Rebuild
