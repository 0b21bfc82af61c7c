/-
  What a schedule keeps while groups are taken and finished.

  All that happens besides a group starting and ending comes down to `Schedule.Advance`: a
  waiting group becomes ready, an open one is given up.  `Schedule.Sound`, which ties the ready
  groups and the counts to the progress of the groups, and `Schedule.Keeps`, which says what
  such a change leaves alone, are proved of these steps and carried to whole operations.

  `Schedule.Sound.offer_ne_nil`: a thread that may take a group finds one.
-/
import Mathlib.Data.List.Nodup
import Mathlib.Logic.Relation
import Mathlib.Tactic.Common
import Rebuild.Build.Schedule
import Rebuild.Proofs.Containers

namespace Rebuild

open Relation

namespace Schedule

variable {s s' t : Schedule} {g : Nat}

/-! ## Progress -/

section
variable {α : Type} {l : List α} {a b c : α} {x : Nat}

/-- What is not written was there before. -/
theorem getElem?_of_set (h : l[g]? = some a) (hb : b ≠ c) (hx : (l.set g b)[x]? = some c) :
    l[x]? = some c := by
  rw [getElem?_set_of_some h] at hx
  split_ifs at hx with hxg
  · exact absurd (Option.some.inj hx) hb
  · exact hx

/-- What is written stays where it was. -/
theorem getElem?_set_kept (h : l[g]? = some a) (hx : l[x]? = some b) :
    (l.set g b)[x]? = some b := by
  rw [getElem?_set_of_some h]
  split_ifs
  · rfl
  · exact hx

/-- Nothing else is touched. -/
theorem getElem?_set_eq_some_iff (h : l[g]? = some a) (ha : a ≠ c) (hb : b ≠ c) :
    (l.set g b)[x]? = some c ↔ l[x]? = some c := by
  refine ⟨getElem?_of_set h hb, fun hx => ?_⟩
  have hxg : x ≠ g := by
    rintro rfl
    exact ha (Option.some.inj (h.symm.trans hx))
  rw [getElem?_set_of_some h, if_neg hxg, hx]

end

/-- Each group waits, is ready, is running, or is done. -/
theorem length_eq_counts (l : List Progress) : l.length =
    l.count .waiting + l.count .ready + l.count .running + l.count .done := by
  induction l with
  | nil => rfl
  | cons p l ih =>
    simp only [List.length_cons, List.count_cons, ih]
    cases p <;> simp <;> omega

theorem exists_progress (hg : g < s.size) : ∃ p, s.progress[g]? = some p :=
  ⟨_, List.getElem?_eq_getElem hg⟩

theorem isOpen_iff {p : Progress} : isOpen p = true ↔ p = .waiting ∨ p = .ready := by
  cases p <;> simp [isOpen]

/-! ## What can happen to the groups that are not running -/

/-- A group becomes ready, or is given up; what the groups wait for may change. -/
inductive Advance (s : Schedule) : Schedule → Prop
  | expect (pending : List Nat) : Advance s { s with pending }
  | makeReady {g : Nat} : s.progress[g]? = some .waiting → Advance s (s.makeReady g)
  | giveUp {g : Nat} {p : Progress} (cause : Nat) :
      s.progress[g]? = some p → isOpen p = true → Advance s (s.giveUp g cause)

/-- Any number of such steps. -/
abbrev Advances : Schedule → Schedule → Prop := ReflTransGen Advance

theorem advances_release (s : Schedule) : Advances s s.release := by
  unfold release
  split
  · next g h =>
    obtain ⟨hg, hw, -⟩ := List.findIdx?_eq_some_iff_getElem.1 h
    have hp : s.progress[g]? = some .waiting :=
      List.getElem?_eq_some_iff.2 ⟨hg, beq_iff_eq.1 hw⟩
    exact .single (.makeReady hp)
  · exact .refl

theorem advances_offer (s : Schedule) : Advances s s.offer := by
  unfold offer
  split
  · exact advances_release s
  · exact .refl

/-- What a group that is done means for one that needs it: it waits for one fewer, and goes if
    that was the last. -/
theorem satisfy_cases (s : Schedule) (g : Nat) :
    (s.pending[g]?.getD 0 = 0 ∧ s.satisfy g = s) ∨
      ∃ k, s.pending[g]? = some (k + 1) ∧
        ((k = 0 ∧ s.progress[g]? = some .waiting ∧
            s.satisfy g = { s with pending := s.pending.set g k }.makeReady g) ∨
          (¬ (k = 0 ∧ s.progress[g]? = some .waiting) ∧
            s.satisfy g = { s with pending := s.pending.set g k })) := by
  unfold satisfy
  cases h : s.pending[g]? with
  | none => simp
  | some k =>
    cases k with
    | zero => simp
    | succ k =>
      refine Or.inr ⟨k, rfl, ?_⟩
      by_cases hk : k = 0 ∧ s.progress[g]? = some .waiting
      · exact Or.inl ⟨hk.1, hk.2, if_pos hk⟩
      · exact Or.inr ⟨hk, if_neg hk⟩

theorem advances_satisfy (s : Schedule) (g : Nat) : Advances s (s.satisfy g) := by
  obtain ⟨-, h⟩ | ⟨k, -, ⟨-, hw, h⟩ | ⟨-, h⟩⟩ := satisfy_cases s g
  · rw [h]
  · rw [h]
    exact (ReflTransGen.single (.expect _)).tail (.makeReady hw)
  · rw [h]
    exact .single (.expect _)

theorem advances_foldl_satisfy (gs : List Nat) (s : Schedule) :
    Advances s (gs.foldl satisfy s) := by
  induction gs generalizing s with
  | nil => exact .refl
  | cons g gs ih => exact (advances_satisfy s g).trans (ih _)

theorem advances_cascade (s : Schedule) (stack : List (Nat × Nat)) :
    Advances s (s.cascade stack) := by
  fun_induction cascade s stack with
  | case1 s => exact .refl
  | case2 s g cause rest p h hp ih => exact .head (.giveUp cause h hp) ih
  | case3 s g cause rest p h hp ih => exact ih
  | case4 s g cause rest h ih => exact ih

theorem cascade_cons_of_open {p : Progress} {cause : Nat} {rest : List (Nat × Nat)}
    (h : s.progress[g]? = some p) (hp : isOpen p = true) : s.cascade ((g, cause) :: rest) =
      (s.giveUp g cause).cascade (((s.dependents.getD g []).map (·, g)).reverse ++ rest) := by
  rw [cascade]
  split
  · next q hq =>
    obtain rfl : p = q := Option.some.inj (h.symm.trans hq)
    exact dif_pos hp
  · next hq => simp [h] at hq

/-! ## Ready groups and counts -/

/-- The ready groups are those in that state, each once; the counts are right. -/
structure Sound (s : Schedule) : Prop where
  ready_nodup : s.ready.Nodup
  mem_ready : ∀ g, g ∈ s.ready ↔ s.progress[g]? = some .ready
  done_eq : s.done = s.progress.count .done
  running_eq : s.running = s.progress.count .running

namespace Sound

theorem advance (h : Sound s) (hs : Advance s s') : Sound s' := by
  cases hs with
  | expect pending => exact ⟨h.ready_nodup, h.mem_ready, h.done_eq, h.running_eq⟩
  | @makeReady g hg =>
    have hnew : g ∉ s.ready := fun hr => by simp [(h.mem_ready g).1 hr] at hg
    refine ⟨?_, fun x => ?_, ?_, ?_⟩
    · rw [makeReady, ← List.concat_eq_append]
      exact h.ready_nodup.concat hnew
    · simp only [makeReady, getElem?_set_of_some hg, List.mem_append, List.mem_singleton,
        h.mem_ready x]
      by_cases hx : x = g <;> simp [hx]
    · have := count_set_of_some hg .ready .done
      simp only [makeReady, h.done_eq]
      simpa using this.symm
    · have := count_set_of_some hg .ready .running
      simp only [makeReady, h.running_eq]
      simpa using this.symm
  | @giveUp g p cause hg hp =>
    have hd : p ≠ .done ∧ p ≠ .running := by
      rcases isOpen_iff.1 hp with rfl | rfl <;> simp
    refine ⟨h.ready_nodup.erase g, fun x => ?_, ?_, ?_⟩
    · simp only [Schedule.giveUp, h.ready_nodup.mem_erase_iff, h.mem_ready x,
        getElem?_set_of_some hg]
      by_cases hx : x = g <;> simp [hx]
    · have := count_set_of_some hg .done .done
      simp only [Schedule.giveUp, h.done_eq]
      simpa [hd.1] using this.symm
    · have := count_set_of_some hg .done .running
      simp only [Schedule.giveUp, h.running_eq]
      simpa [hd.2] using this.symm

theorem advances (h : Sound s) (hs : Advances s s') : Sound s' := by
  induction hs with
  | refl => exact h
  | tail _ hs ih => exact ih.advance hs

/-- No more groups are running and done than there are. -/
theorem running_add_done_le (h : Sound s) : s.running + s.done ≤ s.size := by
  have := length_eq_counts s.progress
  rw [h.running_eq, h.done_eq, size]
  omega

theorem isOver_iff (h : Sound s) :
    s.isOver = true ↔ ∀ g < s.size, s.progress[g]? = some .done := by
  rw [isOver, beq_iff_eq, h.done_eq, size, List.count_eq_length]
  constructor
  · intro hall g hg
    rw [List.getElem?_eq_getElem hg, hall _ (List.getElem_mem hg)]
  · intro hall p hp
    obtain ⟨g, hg, rfl⟩ := List.getElem_of_mem hp
    exact (List.getElem?_eq_some_iff.1 (hall g hg)).2.symm

/-- **A thread that may take a group finds one**: groups that neither are ready nor wait for a
    running one wait, and one of them is let go. -/
theorem offer_ne_nil (h : Sound s) (hover : s.isOver = false) (hawake : s.awake = true) :
    s.offer.ready ≠ [] := by
  by_cases hr : s.ready = []
  · have hrun : s.running = 0 := by simpa [awake, hover, hr] using hawake
    -- none is ready or running and not all are done, so some group waits
    have hready : s.progress.count .ready = 0 := by
      rw [List.count_eq_zero]
      intro hm
      obtain ⟨g, hg⟩ := List.mem_iff_getElem?.1 hm
      simpa [hr] using (h.mem_ready g).2 hg
    have hwait : Progress.waiting ∈ s.progress := by
      have hne : s.done ≠ s.progress.length := by simpa [isOver, size] using hover
      have := length_eq_counts s.progress
      rw [← List.count_pos_iff]
      rw [← h.done_eq, ← h.running_eq] at this
      omega
    have hfind : (s.progress.findIdx? (· == .waiting)).isSome = true := by
      rw [List.findIdx?_isSome, List.any_eq_true]
      exact ⟨_, hwait, beq_self_eq_true _⟩
    obtain ⟨g, hg⟩ := Option.isSome_iff_exists.1 hfind
    simp [offer, hr, release, hg, makeReady]
  · simp [offer, hr]

end Sound

/-! ## What stays -/

/-- What a schedule still says of its groups when others have advanced. -/
structure Keeps (s s' : Schedule) : Prop where
  size : s'.size = s.size
  dependents : s'.dependents = s.dependents
  running_eq : s'.running = s.running
  done_le : s.done ≤ s'.done
  running : ∀ x : Nat, s'.progress[x]? = some .running ↔ s.progress[x]? = some .running
  done : ∀ x : Nat, s.progress[x]? = some .done → s'.progress[x]? = some .done

namespace Keeps

theorem refl (s : Schedule) : Keeps s s :=
  ⟨rfl, rfl, rfl, Nat.le_refl _, fun _ => Iff.rfl, fun _ => id⟩

theorem trans (h : Keeps s t) (h' : Keeps t s') : Keeps s s' :=
  ⟨h'.size.trans h.size, h'.dependents.trans h.dependents, h'.running_eq.trans h.running_eq,
    Nat.le_trans h.done_le h'.done_le, fun x => (h'.running x).trans (h.running x),
    fun x hx => h'.done x (h.done x hx)⟩

theorem of_advance (h : Advance s s') : Keeps s s' := by
  cases h with
  | expect pending => exact ⟨rfl, rfl, rfl, Nat.le_refl _, fun _ => Iff.rfl, fun _ => id⟩
  | @makeReady g hg =>
    exact ⟨List.length_set, rfl, rfl, Nat.le_refl _,
      fun x => getElem?_set_eq_some_iff hg (by simp) (by simp),
      fun x hx => (getElem?_set_eq_some_iff hg (by simp) (by simp)).2 hx⟩
  | @giveUp g p cause hg hp =>
    have hr : p ≠ .running := by
      rintro rfl
      simp [isOpen] at hp
    exact ⟨List.length_set, rfl, rfl, Nat.le_succ _,
      fun x => getElem?_set_eq_some_iff hg hr (by simp), fun x hx => getElem?_set_kept hg hx⟩

theorem of_advances (h : Advances s s') : Keeps s s' := by
  induction h with
  | refl => exact refl s
  | tail _ h ih => exact ih.trans (of_advance h)

end Keeps

/-! ## The start -/

/-- Groups that all wait, before those that need nothing become ready. -/
def waitingFor (needs : List (List Nat)) : Schedule where
  progress := needs.map fun _ => .waiting
  pending := needs.map List.length
  dependents := (List.range needs.length).map (dependentsOf needs)

/-- A group that needs nothing becomes ready. -/
def startStep (s : Schedule) (group : List Nat × Nat) : Schedule :=
  if group.1.isEmpty then s.makeReady group.2 else s

theorem start_eq (needs : List (List Nat)) :
    start needs = needs.zipIdx.foldl startStep (waitingFor needs) := rfl

theorem startStep_pending (s : Schedule) (group : List Nat × Nat) :
    (s.startStep group).pending = s.pending := by
  unfold startStep
  split <;> rfl

theorem startStep_progress_of_ne {group : List Nat × Nat} (h : group.2 ≠ g) (s : Schedule) :
    (s.startStep group).progress[g]? = s.progress[g]? := by
  unfold startStep
  split
  · exact List.getElem?_set_ne h
  · rfl

theorem foldl_startStep_progress_of_notMem {groups : List (List Nat × Nat)}
    (h : g ∉ groups.map Prod.snd) (s : Schedule) :
    (groups.foldl startStep s).progress[g]? = s.progress[g]? := by
  induction groups generalizing s with
  | nil => rfl
  | cons group groups ih =>
    rw [List.map_cons, List.mem_cons, not_or] at h
    rw [List.foldl_cons, ih h.2, startStep_progress_of_ne (Ne.symm h.1)]

theorem foldl_startStep_pending (groups : List (List Nat × Nat)) (s : Schedule) :
    (groups.foldl startStep s).pending = s.pending := by
  induction groups generalizing s with
  | nil => rfl
  | cons group groups ih => rw [List.foldl_cons, ih, startStep_pending]

section
variable {groups : List (List Nat × Nat)} (hnd : (groups.map Prod.snd).Nodup)
  (hwait : ∀ p ∈ groups, s.progress[p.2]? = some .waiting)
include hnd hwait

theorem advances_foldl_startStep : Advances s (groups.foldl startStep s) := by
  induction groups generalizing s with
  | nil => exact .refl
  | cons group groups ih =>
    obtain ⟨hnew, hnd⟩ := List.nodup_cons.1 hnd
    have hstep : Advances s (s.startStep group) := by
      unfold startStep
      split
      · exact .single (.makeReady (hwait group List.mem_cons_self))
      · exact .refl
    refine hstep.trans (ih hnd fun p hp => ?_)
    have hne : group.2 ≠ p.2 := fun h => hnew (h ▸ List.mem_map_of_mem hp)
    rw [startStep_progress_of_ne hne]
    exact hwait p (List.mem_cons_of_mem _ hp)

theorem foldl_startStep_progress {ns : List Nat} (hg : (ns, g) ∈ groups) :
    (groups.foldl startStep s).progress[g]? =
      some (if ns.isEmpty then .ready else .waiting) := by
  induction groups generalizing s with
  | nil => simp at hg
  | cons group groups ih =>
    obtain ⟨hnew, hnd⟩ := List.nodup_cons.1 hnd
    rw [List.foldl_cons]
    rcases List.mem_cons.1 hg with rfl | hg
    · have hw := hwait _ List.mem_cons_self
      rw [foldl_startStep_progress_of_notMem hnew, startStep]
      split
      · simp [makeReady, getElem?_set_of_some hw]
      · exact hw
    · refine ih hnd (fun p hp => ?_) hg
      have hne : group.2 ≠ p.2 := fun h => hnew (h ▸ List.mem_map_of_mem hp)
      rw [startStep_progress_of_ne hne]
      exact hwait p (List.mem_cons_of_mem _ hp)

end

section
variable (needs : List (List Nat))

theorem waitingFor_progress {ns : List Nat} (h : needs[g]? = some ns) :
    (waitingFor needs).progress[g]? = some .waiting := by
  rw [waitingFor, List.getElem?_map, h, Option.map_some]

theorem nodup_zipIdx_snd : (needs.zipIdx.map Prod.snd).Nodup := by
  rw [List.zipIdx_map_snd]
  exact List.nodup_range'

theorem waitingFor_wait (p : List Nat × Nat) (hp : p ∈ needs.zipIdx) :
    (waitingFor needs).progress[p.2]? = some .waiting :=
  waitingFor_progress needs (List.mem_zipIdx_iff_getElem?.1 hp)

theorem advances_start : Advances (waitingFor needs) (start needs) := by
  rw [start_eq]
  exact advances_foldl_startStep (nodup_zipIdx_snd needs) (waitingFor_wait needs)

/-- At first the groups that need nothing are ready, and the others wait. -/
theorem start_progress {ns : List Nat} (h : needs[g]? = some ns) :
    (start needs).progress[g]? = some (if ns.isEmpty then .ready else .waiting) := by
  rw [start_eq]
  exact foldl_startStep_progress (nodup_zipIdx_snd needs) (waitingFor_wait needs)
    (List.mem_zipIdx_iff_getElem?.2 h)

theorem start_pending : (start needs).pending = needs.map List.length := by
  rw [start_eq, foldl_startStep_pending]
  rfl

theorem start_dependents :
    (start needs).dependents = (List.range needs.length).map (dependentsOf needs) :=
  (Keeps.of_advances (advances_start needs)).dependents

@[simp] theorem start_size : (start needs).size = needs.length :=
  (Keeps.of_advances (advances_start needs)).size.trans (List.length_map _)

theorem start_running : (start needs).running = 0 :=
  (Keeps.of_advances (advances_start needs)).running_eq

theorem sound_waitingFor : Sound (waitingFor needs) := by
  have hcount (p : Progress) (hp : p ≠ .waiting) : (waitingFor needs).progress.count p = 0 := by
    rw [List.count_eq_zero]
    simp [waitingFor, hp]
  refine ⟨List.nodup_nil, fun g => ?_, (hcount .done (by simp)).symm,
    (hcount .running (by simp)).symm⟩
  refine ⟨fun h => absurd h List.not_mem_nil, fun h => ?_⟩
  exact absurd (List.mem_of_getElem? h) (List.count_eq_zero.1 (hcount .ready (by simp)))

theorem sound_start : Sound (start needs) :=
  (sound_waitingFor needs).advances (advances_start needs)

end

/-! ## Taking a group -/

/-- A group that was ready starts. -/
def enter (s : Schedule) (g : Nat) (rest : List Nat) : Schedule :=
  { s with ready := rest, progress := s.progress.set g .running, running := s.running + 1 }

theorem take?_eq_some : s.take? = some (g, s') ↔ s.isOver = false ∧ s.awake = true ∧
    ∃ rest, s.offer.ready = g :: rest ∧ s' = s.offer.enter g rest := by
  unfold take?
  cases s.isOver <;> cases s.awake <;> simp only [Bool.or_true, Bool.or_false, Bool.not_true,
    Bool.not_false, if_true, if_false, reduceCtorEq, false_and, and_false, true_and]
  cases hr : s.offer.ready with
  | nil => simp
  | cons x rest =>
    simp only [Option.some.injEq, Prod.mk.injEq, List.cons.injEq]
    constructor
    · rintro ⟨rfl, rfl⟩
      exact ⟨rest, ⟨rfl, rfl⟩, rfl⟩
    · rintro ⟨_, ⟨rfl, rfl⟩, rfl⟩
      exact ⟨rfl, rfl⟩

theorem offer_eq_self (h : s.ready ≠ []) : s.offer = s := by
  simp [offer, h]

theorem Sound.exists_take (h : Sound s) (hover : s.isOver = false) (hawake : s.awake = true) :
    ∃ g s', s.take? = some (g, s') := by
  obtain ⟨g, rest, hr⟩ := List.exists_cons_of_ne_nil (h.offer_ne_nil hover hawake)
  exact ⟨g, _, take?_eq_some.2 ⟨hover, hawake, rest, hr, rfl⟩⟩

theorem Sound.enter {rest : List Nat} (h : Sound s) (hr : s.ready = g :: rest) :
    Sound (s.enter g rest) := by
  have hg : s.progress[g]? = some .ready := (h.mem_ready g).1 (by simp [hr])
  have hnd := h.ready_nodup
  rw [hr, List.nodup_cons] at hnd
  refine ⟨hnd.2, fun x => ?_, ?_, ?_⟩
  · have hx := h.mem_ready x
    rw [hr, List.mem_cons] at hx
    simp only [Schedule.enter, getElem?_set_of_some hg]
    by_cases hxg : x = g
    · simp [hxg, hnd.1]
    · simpa [hxg] using hx
  · have := count_set_of_some hg .running .done
    simp only [Schedule.enter, h.done_eq]
    simpa using this.symm
  · have := count_set_of_some hg .running .running
    simp only [Schedule.enter, h.running_eq]
    simpa using this.symm

/-- What a schedule says of the groups once one of them was taken. -/
structure Taken (s : Schedule) (g : Nat) (s' : Schedule) : Prop where
  size : s'.size = s.size
  dependents : s'.dependents = s.dependents
  running_eq : s'.running = s.running + 1
  done_le : s.done ≤ s'.done
  was_open : s.progress[g]? = some .waiting ∨ s.progress[g]? = some .ready
  running : ∀ x : Nat, s'.progress[x]? = some .running ↔ x = g ∨ s.progress[x]? = some .running
  done : ∀ x : Nat, s.progress[x]? = some .done → s'.progress[x]? = some .done

theorem Sound.taken (h : Sound s) (ht : s.take? = some (g, s')) : Sound s' ∧ Taken s g s' := by
  obtain ⟨-, -, rest, hr, rfl⟩ := take?_eq_some.1 ht
  have hs := h.advances (advances_offer s)
  have hk := Keeps.of_advances (advances_offer s)
  have hg : s.offer.progress[g]? = some .ready := (hs.mem_ready g).1 (by simp [hr])
  have hlt : g < s.size := hk.size ▸ (List.getElem?_eq_some_iff.1 hg).1
  refine ⟨hs.enter hr, ?_⟩
  refine ⟨?_, hk.dependents, by simp [Schedule.enter, hk.running_eq], hk.done_le, ?_, fun x => ?_,
    fun x hx => ?_⟩
  · rw [← hk.size]
    exact List.length_set
  · -- what is ready now was neither running nor done
    obtain ⟨p, hp⟩ := exists_progress hlt
    cases p with
    | waiting => exact Or.inl hp
    | ready => exact Or.inr hp
    | running => simpa [hg] using (hk.running g).2 hp
    | done => simpa [hg] using hk.done g hp
  · simp only [Schedule.enter, getElem?_set_of_some hg, ← hk.running x]
    by_cases hx : x = g <;> simp [hx]
  · have hx' := hk.done x hx
    have hne : x ≠ g := fun h => by simp [h, hg] at hx'
    simpa [Schedule.enter, getElem?_set_of_some hg, hne] using hx'

/-! ## Finishing a group -/

/-- A running group has ended; what that means for others is still to come. -/
def complete (s : Schedule) (g : Nat) : Schedule :=
  { s with progress := s.progress.set g .done, done := s.done + 1, running := s.running - 1 }

theorem finish_true (s : Schedule) (g : Nat) :
    s.finish g true = (s.dependents.getD g []).foldl satisfy (s.complete g) := rfl

theorem finish_false (s : Schedule) (g : Nat) : s.finish g false =
    (s.complete g).cascade ((s.dependents.getD g []).map (·, g)).reverse := rfl

theorem advances_finish (s : Schedule) (g : Nat) (succeeded : Bool) :
    Advances (s.complete g) (s.finish g succeeded) := by
  cases succeeded with
  | true => exact advances_foldl_satisfy _ _
  | false => exact advances_cascade _ _

theorem Sound.complete (h : Sound s) (hg : s.progress[g]? = some .running) :
    Sound (s.complete g) := by
  refine ⟨h.ready_nodup, fun x => ?_, ?_, ?_⟩
  · simp only [Schedule.complete, getElem?_set_of_some hg, h.mem_ready x]
    by_cases hx : x = g <;> simp [hx, hg]
  · have := count_set_of_some hg .done .done
    simp only [Schedule.complete, h.done_eq]
    simpa using this.symm
  · have := count_set_of_some hg .done .running
    simp only [Schedule.complete, h.running_eq]
    simp only [if_true, reduceCtorEq, if_false] at this
    omega

/-- What a schedule says of the groups once one of them has ended. -/
structure Finished (s : Schedule) (g : Nat) (s' : Schedule) : Prop where
  size : s'.size = s.size
  dependents : s'.dependents = s.dependents
  running_eq : s'.running + 1 = s.running
  done_lt : s.done < s'.done
  running : ∀ x : Nat, s'.progress[x]? = some .running ↔ x ≠ g ∧ s.progress[x]? = some .running
  done : ∀ x : Nat, x = g ∨ s.progress[x]? = some .done → s'.progress[x]? = some .done

theorem Sound.finished (h : Sound s) (hg : s.progress[g]? = some .running) (succeeded : Bool) :
    Sound (s.finish g succeeded) ∧ Finished s g (s.finish g succeeded) := by
  have ha := advances_finish s g succeeded
  have hk := Keeps.of_advances ha
  have hpos : 0 < s.running := by
    rw [h.running_eq, List.count_pos_iff]
    exact List.mem_of_getElem? hg
  refine ⟨(h.complete hg).advances ha, hk.size.trans List.length_set, hk.dependents, ?_,
    hk.done_le, fun x => ?_, fun x hx => hk.done x ?_⟩
  · rw [hk.running_eq]
    exact Nat.sub_add_cancel hpos
  · rw [hk.running x]
    simp only [Schedule.complete, getElem?_set_of_some hg]
    by_cases hx : x = g <;> simp [hx]
  · simp only [Schedule.complete, getElem?_set_of_some hg]
    rcases hx with rfl | hx
    · simp
    · by_cases hxg : x = g <;> simp [hxg, hx]

/-! ## A thread on its own -/

section
variable {σ : Type} (compile : σ → Nat → Bool × σ)

theorem Sound.isOver_runFrom (h : Sound s) (hrun : s.running = 0) {bound : Nat}
    (hbound : s.size ≤ s.done + bound) (state : σ) :
    (runFrom compile bound state s).2.isOver = true := by
  induction bound generalizing s state with
  | zero =>
    have := h.running_add_done_le
    have hdone : s.done = s.size := by omega
    exact beq_iff_eq.2 hdone
  | succ bound ih =>
    rw [runFrom]
    cases ht : s.take? with
    | none =>
      by_contra hover
      have hawake : s.awake = true := by simp [awake, hrun]
      obtain ⟨g, s', hs⟩ := h.exists_take (Bool.eq_false_iff.2 hover) hawake
      simp [ht] at hs
    | some taken =>
      obtain ⟨g, s'⟩ := taken
      obtain ⟨hs', htaken⟩ := h.taken ht
      obtain ⟨hs'', hfin⟩ :=
        hs'.finished ((htaken.running g).2 (Or.inl rfl)) (compile state g).1
      have hsize := hfin.size.trans htaken.size
      have hrunning := hfin.running_eq
      have := htaken.running_eq
      have := htaken.done_le
      have := hfin.done_lt
      exact ih hs'' (by omega) (by omega) _

/-- **A thread on its own gets all groups done**, whatever they need. -/
theorem isOver_run (needs : List (List Nat)) (state : σ) :
    ((start needs).run compile state).2.isOver = true :=
  (sound_start needs).isOver_runFrom compile (start_running needs) (Nat.le_add_left _ _) state

end

end Schedule

end Rebuild
