/-
  What every step of the search for components keeps.

  * `Search.Ordered` says of the components closed so far that each is a class of mutual
    reachability and that the edges of a component stay in it or lead to one closed before;
  * `Search.Valid` is the invariant: what was entered, where the frames lead, and what the
    low marks say.

  Nodes are told apart by their times of entry.  The nodes of the stack from the time of a
  frame on are what was entered below it, and the frame reaches all of them.
-/
import Rebuild.Graph.Components
import Rebuild.Proofs.Graph.Basic

namespace Rebuild

open Relation

/-- An edge between numbers. -/
def Graph.Arc (g : Graph) (v w : Nat) : Prop := w ∈ g.next v

/-- One number reaches another one along edges. -/
abbrev Graph.Reaches (g : Graph) : Nat → Nat → Prop := ReflTransGen g.Arc

namespace Search

/-- The time of entry of a node that was entered. -/
def time (s : Search) (v : Nat) : Nat := (s.entry v).getD 0

/-- Components, the latest first: each holds nodes that reach one another, and its edges
    lead into it or into an earlier one. -/
inductive Ordered (g : Graph) : List (List Nat) → Prop
  | nil : Ordered g []
  | cons {c : List Nat} {earlier : List (List Nat)} :
      c ≠ [] → c.Nodup → (∀ v ∈ c, ∀ w ∈ c, g.Reaches v w) →
      (∀ v ∈ c, ∀ d ∈ earlier, v ∉ d) →
      (∀ v ∈ c, ∀ w, g.Arc v w → w ∈ c ∨ ∃ d ∈ earlier, w ∈ d) →
      Ordered g earlier → Ordered g (c :: earlier)

namespace Ordered

variable {g : Graph} {cs : List (List Nat)}

theorem ne_nil (h : Ordered g cs) {c : List Nat} (hc : c ∈ cs) : c ≠ [] := by
  induction h with
  | nil => cases hc
  | cons hne _ _ _ _ _ ih =>
    rcases List.mem_cons.1 hc with rfl | hc
    · exact hne
    · exact ih hc

/-- The edges of the components lead into them. -/
theorem arc_mem (h : Ordered g cs) {c : List Nat} (hc : c ∈ cs) {v w : Nat} (hv : v ∈ c)
    (hvw : g.Arc v w) : ∃ d ∈ cs, w ∈ d := by
  induction h with
  | nil => simp at hc
  | @cons c' earlier _ _ _ _ harc _ ih =>
    rcases List.mem_cons.1 hc with rfl | hc
    · rcases harc v hv w hvw with h | ⟨d, hd, h⟩
      · exact ⟨c, List.mem_cons_self, h⟩
      · exact ⟨d, List.mem_cons_of_mem _ hd, h⟩
    · obtain ⟨d, hd, h⟩ := ih hc
      exact ⟨d, List.mem_cons_of_mem _ hd, h⟩

theorem reaches_mem (h : Ordered g cs) {c : List Nat} (hc : c ∈ cs) {v w : Nat} (hv : v ∈ c)
    (hvw : g.Reaches v w) : ∃ d ∈ cs, w ∈ d := by
  induction hvw with
  | refl => exact ⟨c, hc, hv⟩
  | tail _ hxy ih =>
    obtain ⟨d, hd, hx⟩ := ih
    exact h.arc_mem hd hx hxy

/-- An edge out of a component leads to an earlier one, so none leads to a later one. -/
theorem pairwise (h : Ordered g cs) : cs.Pairwise fun c d =>
    (∀ v ∈ c, v ∉ d) ∧ ∀ v ∈ d, ∀ w ∈ c, ¬ g.Arc v w := by
  induction h with
  | nil => exact .nil
  | cons _ _ _ hdisj _ hearlier ih =>
    refine List.pairwise_cons.2 ⟨fun d hd => ⟨fun v hv => hdisj v hv d hd, ?_⟩, ih⟩
    intro v hv w hw hvw
    obtain ⟨e, he, hwe⟩ := hearlier.arc_mem hd hv hvw
    exact hdisj w hw e he hwe

/-- **A component is a class of mutual reachability.** -/
theorem mem_iff (h : Ordered g cs) {c : List Nat} (hc : c ∈ cs) {v w : Nat} (hv : v ∈ c) :
    w ∈ c ↔ g.Reaches v w ∧ g.Reaches w v := by
  induction h with
  | nil => simp at hc
  | @cons c' earlier _ _ hreach hdisj harc hearlier ih =>
    rcases List.mem_cons.1 hc with rfl | hc
    · refine ⟨fun hw => ⟨hreach v hv w hw, hreach w hw v hv⟩, fun ⟨hvw, hwv⟩ => ?_⟩
      -- a way out of the component would lead back into it from earlier ones
      have hall : Ordered g (c :: earlier) := .cons ‹_› ‹_› hreach hdisj harc hearlier
      obtain ⟨d, hd, hw⟩ := hall.reaches_mem List.mem_cons_self hv hvw
      rcases List.mem_cons.1 hd with rfl | hd
      · exact hw
      · obtain ⟨e, he, hve⟩ := hearlier.reaches_mem hd hw hwv
        exact absurd hve (hdisj v hv e he)
    · exact ih hc

end Ordered

/-- What was entered: it is on the stack, the latest first, or in a closed component. -/
structure Entered (g : Graph) (s : Search) : Prop where
  entered_size : s.entered.size = g.size
  onStack_size : s.onStack.size = g.size
  low_size : s.low.size = g.size
  time_lt : ∀ v, s.entry v ≠ none → s.time v < s.clock
  onStack_iff : ∀ v, s.onStack.getD v false = true ↔ v ∈ s.stack
  entered_iff : ∀ v, s.entry v ≠ none ↔ v ∈ s.stack ∨ ∃ c ∈ s.closed, v ∈ c
  not_closed : ∀ v ∈ s.stack, ∀ c ∈ s.closed, v ∉ c
  stack_sorted : s.stack.Pairwise fun a b => s.time b < s.time a

/-- The frames: each reaches what was entered since. -/
structure Framed (g : Graph) (s : Search) : Prop where
  frames_sorted : s.frames.Pairwise fun a b => s.time b.1 < s.time a.1
  frame_mem : ∀ f ∈ s.frames, f.1 ∈ s.stack
  frame_arc : ∀ f ∈ s.frames, ∀ w ∈ f.2, g.Arc f.1 w
  /-- An edge is taken, or is still to be taken by the frame of its node. -/
  taken : ∀ v, s.entry v ≠ none → ∀ w, g.Arc v w →
    s.entry w ≠ none ∨ ∃ f ∈ s.frames, f.1 = v ∧ w ∈ f.2
  frame_reaches : ∀ f ∈ s.frames, ∀ x ∈ s.stack, s.time f.1 ≤ s.time x → g.Reaches f.1 x
  below_frame : ∀ x ∈ s.stack, ∃ f ∈ s.frames, s.time f.1 ≤ s.time x

/-- The low marks of the nodes on the stack. -/
structure Marked (g : Graph) (s : Search) : Prop where
  low_le : ∀ v ∈ s.stack, s.lowOf v ≤ s.time v
  /-- A low mark is the time of a node that can be reached. -/
  low_reaches : ∀ v ∈ s.stack, ∃ w ∈ s.stack, s.time w = s.lowOf v ∧ g.Reaches v w
  /-- A node that was left without being closed reaches an earlier one. -/
  low_lt : ∀ v ∈ s.stack, (∀ f ∈ s.frames, f.1 ≠ v) → s.lowOf v < s.time v
  /-- Where the edges below a frame lead is known to that frame or to one above it. -/
  low_taken : ∀ f ∈ s.frames, ∀ x ∈ s.stack, s.time f.1 ≤ s.time x → ∀ w ∈ s.stack, g.Arc x w →
    (∀ h ∈ s.frames, h.1 = x → w ∉ h.2) →
    ∃ h ∈ s.frames, s.time f.1 ≤ s.time h.1 ∧ s.lowOf h.1 ≤ s.time w

/-- The invariant of the search. -/
structure Valid (g : Graph) (s : Search) : Prop extends Entered g s, Framed g s, Marked g s where
  ordered : Ordered g s.closed

namespace Valid

variable {g : Graph} {s : Search}

theorem entered_of_mem (hs : Valid g s) {v : Nat} (hv : v ∈ s.stack) : s.entry v ≠ none :=
  (hs.entered_iff v).2 (Or.inl hv)

theorem time_inj (hs : Valid g s) {v w : Nat} (hv : v ∈ s.stack) (hw : w ∈ s.stack)
    (h : s.time v = s.time w) : v = w := eq_of_descending hs.stack_sorted hv hw h

section
variable {f : Nat × List Nat} {frames : List (Nat × List Nat)} (hf : s.frames = f :: frames)
include hf

theorem top_mem : f ∈ s.frames := by
  rw [hf]
  exact List.mem_cons_self

theorem mem_frames_of_below {h : Nat × List Nat} (hh : h ∈ frames) : h ∈ s.frames := by
  rw [hf]
  exact List.mem_cons_of_mem _ hh

theorem frames_sorted_below (hs : Valid g s) :
    frames.Pairwise fun a b => s.time b.1 < s.time a.1 := by
  have hp := hs.frames_sorted
  rw [hf, List.pairwise_cons] at hp
  exact hp.2

/-- The frames below the top one belong to earlier nodes. -/
theorem time_lt_top (hs : Valid g s) {h : Nat × List Nat} (hh : h ∈ frames) :
    s.time h.1 < s.time f.1 := by
  have hp := hs.frames_sorted
  rw [hf, List.pairwise_cons] at hp
  exact hp.1 h hh

theorem time_le_top (hs : Valid g s) {h : Nat × List Nat} (hh : h ∈ s.frames) :
    s.time h.1 ≤ s.time f.1 := by
  rw [hf] at hh
  rcases List.mem_cons.1 hh with rfl | hh
  · exact Nat.le_refl _
  · exact Nat.le_of_lt (time_lt_top hf hs hh)

theorem top_mem_stack (hs : Valid g s) : f.1 ∈ s.stack := hs.frame_mem f (top_mem hf)

end

/-- Two frames of one node are one frame. -/
theorem frame_unique (hs : Valid g s) {f h : Nat × List Nat} (hf : f ∈ s.frames)
    (hh : h ∈ s.frames) (he : f.1 = h.1) : f = h :=
  eq_of_descending hs.frames_sorted hf hh (congrArg s.time he)

end Valid

end Search

end Rebuild
