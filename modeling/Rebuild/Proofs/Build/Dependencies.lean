/-
  What is compiled does not depend on which thread goes on when.

  `Schedule.Tracks` ties what each group still waits for to the groups that have succeeded so
  far.  It also holds in the middle of a step, with what is still to come: the groups that are
  yet to be told that one they need is done, or the stack of those to be given up.

  Without a cycle no group is ever let go early (`Schedule.Tracks.ready_ne_nil`), so a group
  starts only when all that it needs has succeeded; `Crew.run_settled` is what that comes to.
-/
import Mathlib.Data.Fintype.EquivFin
import Mathlib.Order.RelClasses
import Rebuild.Proofs.Build.Crew

namespace Rebuild

open Relation

/-- Group `g` needs group `d`. -/
def Needs (needs : List (List Nat)) (g d : Nat) : Prop := ∃ ns, needs[g]? = some ns ∧ d ∈ ns

/-- Groups need only one another, and none needs itself, directly or through others. -/
structure Acyclic (needs : List (List Nat)) : Prop where
  lt_length : ∀ g d, Needs needs g d → d < needs.length
  irrefl : ∀ g, ¬ TransGen (Needs needs) g g

section
variable {needs : List (List Nat)} {g d : Nat}

theorem Needs.lt (h : Needs needs g d) : g < needs.length := by
  obtain ⟨ns, hns, -⟩ := h
  exact (List.getElem?_eq_some_iff.1 hns).1

/-- What holds of a group when it holds of all that it needs holds of every group. -/
theorem Acyclic.induction (h : Acyclic needs) {p : Nat → Prop}
    (hp : ∀ g < needs.length, (∀ d, Needs needs g d → p d) → p g) (g : Nat)
    (hg : g < needs.length) : p g := by
  let r : Fin needs.length → Fin needs.length → Prop := fun d g => TransGen (Needs needs) g d
  have : IsTrans _ r := ⟨fun _ _ _ h₁ h₂ => h₂.trans h₁⟩
  have : Std.Irrefl r := ⟨fun g => h.irrefl g⟩
  have hwf : WellFounded r := Finite.wellFounded_of_trans_of_irrefl r
  have := hwf.induction (C := fun g => p g) ⟨g, hg⟩ fun g ih => hp g g.2 fun d hd =>
    ih ⟨d, h.lt_length g d hd⟩ (.single hd)
  exact this

end

/-! ## Who needs a group -/

section
variable {g x : Nat}

theorem count_needing (needs : List (List Nat)) (k : Nat) :
    ((needs.zipIdx k).flatMap fun (ns, i) => (ns.filter (· == g)).map fun _ => i).count x =
      if x < k then 0 else (needs[x - k]?.getD []).count g := by
  induction needs generalizing k with
  | nil => simp
  | cons ns needs ih =>
    have hhead : ((ns.filter (· == g)).map fun _ => k).count x =
        if k = x then ns.count g else 0 := by
      rw [List.map_const', List.count_replicate, List.count_eq_length_filter]
      simp only [beq_iff_eq]
    simp only [List.zipIdx_cons, List.flatMap_cons, List.count_append, hhead, ih]
    rcases Nat.lt_trichotomy x k with hx | rfl | hx
    · simp [hx, Nat.ne_of_gt hx, Nat.lt_succ_of_lt hx]
    · simp
    · have hsub : x - k = (x - (k + 1)) + 1 := by omega
      simp [Nat.ne_of_lt hx, Nat.not_lt.2 (Nat.le_of_lt hx), Nat.not_lt.2 hx, hsub]

/-- A group is told of another one as often as it needs that. -/
theorem count_dependentsOf {needs : List (List Nat)} {ns : List Nat} (h : needs[x]? = some ns) :
    (Schedule.dependentsOf needs g).count x = ns.count g := by
  have := count_needing needs 0 (g := g) (x := x)
  rwa [if_neg (Nat.not_lt_zero x), Nat.sub_zero, h, Option.getD_some] at this

theorem mem_dependentsOf {needs : List (List Nat)} :
    x ∈ Schedule.dependentsOf needs g ↔ Needs needs x g := by
  simp only [Schedule.dependentsOf, List.mem_flatMap, List.mem_map, List.mem_filter, beq_iff_eq,
    Prod.exists]
  constructor
  · rintro ⟨ns, i, hns, d, ⟨hd, rfl⟩, rfl⟩
    exact ⟨ns, List.mem_zipIdx_iff_getElem?.1 hns, hd⟩
  · rintro ⟨ns, hns, hd⟩
    exact ⟨ns, x, List.mem_zipIdx_iff_getElem?.2 hns, g, ⟨hd, rfl⟩, rfl⟩

end

namespace Schedule

variable {needs : List (List Nat)} {won ended owed : List Nat} {stack : List (Nat × Nat)}
  {s s' : Schedule} {g : Nat}

/-- What a schedule says of the groups that have succeeded and ended so far.  The groups of
    `owed` are yet to be told that one of them has succeeded; those of `stack` are yet to be
    given up. -/
structure Tracks (needs : List (List Nat)) (won ended owed : List Nat)
    (stack : List (Nat × Nat)) (s : Schedule) : Prop where
  size : s.size = needs.length
  dependents : s.dependents = (List.range needs.length).map (dependentsOf needs)
  pending : ∀ g ns, needs[g]? = some ns →
    s.pending[g]? = some (ns.countP (· ∉ won) + owed.count g)
  waiting : ∀ g : Nat, s.progress[g]? = some .waiting → s.pending[g]? ≠ some 0
  begun : ∀ g : Nat, s.progress[g]? = some .ready ∨ s.progress[g]? = some .running →
    s.pending[g]? = some 0
  won_done : ∀ d ∈ won, s.progress[d]? = some .done
  /-- A group that is done has ended, or was given up because of one that did not succeed. -/
  done : ∀ g : Nat, s.progress[g]? = some .done → g ∈ ended ∨
    ∃ d, (g, d) ∈ s.givenUp ∧ Needs needs g d ∧ s.progress[d]? = some .done ∧ d ∉ won
  on_stack : ∀ g d, (g, d) ∈ stack →
    Needs needs g d ∧ s.progress[d]? = some .done ∧ d ∉ won
  /-- What needs a group that did not succeed is done, or will be. -/
  failed : ∀ g d, Needs needs g d → s.progress[d]? = some .done → d ∉ won →
    s.progress[g]? = some .done ∨ ∃ d', (g, d') ∈ stack

namespace Tracks

theorem mem_dependents (h : Tracks needs won ended owed stack s) {d : Nat}
    (hd : d < needs.length) : g ∈ s.dependents.getD d [] ↔ Needs needs g d := by
  rw [h.dependents, ← mem_dependentsOf]
  simp [List.getD_eq_getElem?_getD, hd]

/-- A group that is ready or running needs nothing more. -/
theorem needs_won (h : Tracks needs won ended [] stack s)
    (hg : s.progress[g]? = some .ready ∨ s.progress[g]? = some .running) {d : Nat}
    (hd : Needs needs g d) : d ∈ won := by
  obtain ⟨ns, hns, hmem⟩ := hd
  have := h.begun g hg
  rw [h.pending g ns hns, Option.some.injEq, List.count_nil, Nat.add_zero,
    List.countP_eq_zero] at this
  simpa using this d hmem

/-- A group waits for one that has not succeeded. -/
theorem exists_not_won (h : Tracks needs won ended [] stack s)
    (hg : s.progress[g]? = some .waiting) : ∃ d, Needs needs g d ∧ d ∉ won := by
  have hlt : g < needs.length := h.size ▸ (List.getElem?_eq_some_iff.1 hg).1
  have hns := List.getElem?_eq_getElem hlt
  have := h.waiting g hg
  rw [h.pending g _ hns, Ne, Option.some.injEq, List.count_nil, Nat.add_zero, ← Ne,
    ← Nat.pos_iff_ne_zero, List.countP_pos_iff] at this
  obtain ⟨d, hd, hwon⟩ := this
  exact ⟨d, ⟨_, hns, hd⟩, by simpa using hwon⟩

/-! ### Success -/

/-- The next group is told. -/
theorem satisfy (h : Tracks needs won ended (g :: owed) [] s) (hg : g < needs.length) :
    Tracks needs won ended owed [] (s.satisfy g) := by
  have hns := List.getElem?_eq_getElem hg
  have hpg := h.pending g _ hns
  rw [List.count_cons_self, ← Nat.add_assoc] at hpg
  obtain ⟨hzero, -⟩ | ⟨k, hk, hcases⟩ := satisfy_cases s g
  · simp [hpg] at hzero
  have hkeq : k = needs[g].countP (· ∉ won) + owed.count g := by
    rw [hpg, Option.some.injEq] at hk
    exact (Nat.succ.inj hk).symm
  have hset (x : Nat) : (s.pending.set g k)[x]? = if x = g then some k else s.pending[x]? :=
    getElem?_set_of_some hk k x
  have hpending (x : Nat) (ns : List Nat) (hx : needs[x]? = some ns) :
      (s.pending.set g k)[x]? = some (ns.countP (· ∉ won) + owed.count x) := by
    rw [hset]
    split_ifs with hxg
    · subst hxg
      rw [hns, Option.some.injEq] at hx
      rw [hkeq, hx]
    · rw [h.pending x ns hx, List.count_cons_of_ne (Ne.symm hxg)]
  -- a group that was told was still waiting for something
  have hbegun (x : Nat) (hx : s.progress[x]? = some .ready ∨ s.progress[x]? = some .running) :
      x ≠ g := by
    rintro rfl
    simp [h.begun x hx] at hk
  obtain ⟨rfl, hw, hs⟩ | ⟨hnot, hs⟩ := hcases
  · rw [hs]
    have hprog := getElem?_set_of_some hw Progress.ready
    have hdone (x : Nat) : (s.progress.set g .ready)[x]? = some .done ↔
        s.progress[x]? = some .done := getElem?_set_eq_some_iff hw (by simp) (by simp)
    refine ⟨List.length_set.trans h.size, h.dependents, hpending, fun x hx => ?_,
      fun x hx => ?_, fun d hd => (hdone d).2 (h.won_done d hd), fun x hx => ?_, ?_,
      fun x d hx hd hnw => ?_⟩
    · simp only [makeReady, hprog] at hx ⊢
      split_ifs at hx with hxg
      · simp at hx
      · rw [hset, if_neg hxg]
        exact h.waiting x hx
    · simp only [makeReady, hprog] at hx ⊢
      rw [hset]
      split_ifs at hx ⊢ with hxg
      · rfl
      · exact h.begun x hx
    · simp only [makeReady, hdone] at hx ⊢
      exact h.done x hx
    · simp
    · simp only [makeReady, hdone] at hd ⊢
      exact h.failed x d hx hd hnw
  · rw [hs]
    refine ⟨h.size, h.dependents, hpending, fun x hx => ?_, fun x hx => ?_, h.won_done, h.done,
      h.on_stack, h.failed⟩
    · simp only [hset]
      split_ifs with hxg
      · subst hxg
        simpa using fun hk0 => hnot ⟨hk0, hx⟩
      · exact h.waiting x hx
    · simp only [hset, if_neg (hbegun x hx)]
      exact h.begun x hx

theorem foldl_satisfy (h : Tracks needs won ended owed [] s)
    (howed : ∀ g ∈ owed, g < needs.length) :
    Tracks needs won ended [] [] (owed.foldl Schedule.satisfy s) := by
  induction owed generalizing s with
  | nil => exact h
  | cons g owed ih =>
    obtain ⟨hg, howed⟩ := List.forall_mem_cons.1 howed
    exact ih (h.satisfy hg) howed

/-! ### Failure -/

/-- What waits for a group that did not succeed is given up, and all that needs it is put on the
    stack. -/
theorem giveUp {d : Nat} (h : Tracks needs won ended [] ((g, d) :: stack) s)
    (hg : s.progress[g]? = some .waiting) : Tracks needs won ended []
      (((s.dependents.getD g []).map (·, g)).reverse ++ stack) (s.giveUp g d) := by
  obtain ⟨hgd, hd, hwon⟩ := h.on_stack g d List.mem_cons_self
  have hprog := getElem?_set_of_some hg Progress.done
  have hdone (x : Nat) (hx : s.progress[x]? = some .done) :
      (s.progress.set g .done)[x]? = some .done := getElem?_set_kept hg hx
  have hgwon : g ∉ won := fun hw => by simp [h.won_done g hw] at hg
  refine ⟨List.length_set.trans h.size, h.dependents, h.pending,
    fun x hx => h.waiting x (getElem?_of_set hg (by simp) hx),
    fun x hx => h.begun x
      (hx.imp (getElem?_of_set hg (by simp)) (getElem?_of_set hg (by simp))),
    fun x hx => hdone x (h.won_done x hx), fun x hx => ?_, fun x y hxy => ?_,
    fun x y hxy hy hyw => ?_⟩
  · by_cases hxg : x = g
    · subst hxg
      exact Or.inr ⟨d, by simp [Schedule.giveUp], hgd, hdone d hd, hwon⟩
    · simp only [Schedule.giveUp, hprog, if_neg hxg] at hx
      rcases h.done x hx with he | ⟨y, hmem, hxy, hy, hyw⟩
      · exact Or.inl he
      · exact Or.inr ⟨y, List.mem_append_left _ hmem, hxy, hdone y hy, hyw⟩
  · rw [List.mem_append, List.mem_reverse, List.mem_map] at hxy
    rcases hxy with ⟨z, hz, heq⟩ | hxy
    · obtain ⟨rfl, rfl⟩ := Prod.mk.inj heq
      exact ⟨(h.mem_dependents hgd.lt).1 hz, (hprog _).trans (if_pos rfl), hgwon⟩
    · obtain ⟨hneed, hy, hyw⟩ := h.on_stack x y (List.mem_cons_of_mem _ hxy)
      exact ⟨hneed, hdone y hy, hyw⟩
  · by_cases hyg : y = g
    · subst hyg
      have hx := (h.mem_dependents hgd.lt).2 hxy
      exact Or.inr ⟨y, List.mem_append_left _
        (List.mem_reverse.2 (List.mem_map.2 ⟨x, hx, rfl⟩))⟩
    · simp only [Schedule.giveUp, hprog, if_neg hyg] at hy
      rcases h.failed x y hxy hy hyw with hx | ⟨z, hz⟩
      · exact Or.inl (hdone x hx)
      · rcases List.mem_cons.1 hz with hz | hz
        · obtain ⟨rfl, rfl⟩ := Prod.mk.inj hz
          exact Or.inl ((hprog _).trans (if_pos rfl))
        · exact Or.inr ⟨z, List.mem_append_right _ hz⟩

/-- A group that is done already stays as it is. -/
theorem pop {d : Nat} (h : Tracks needs won ended [] ((g, d) :: stack) s)
    (hg : s.progress[g]? = some .done) : Tracks needs won ended [] stack s := by
  refine { h with on_stack := fun x y hxy => h.on_stack x y (List.mem_cons_of_mem _ hxy),
                  failed := fun x y hxy hy hyw => ?_ }
  rcases h.failed x y hxy hy hyw with hx | ⟨z, hz⟩
  · exact Or.inl hx
  · rcases List.mem_cons.1 hz with hz | hz
    · obtain ⟨rfl, -⟩ := Prod.mk.inj hz
      exact Or.inl hg
    · exact Or.inr ⟨z, hz⟩

/-- A group on the stack waits or is done: what it needs has not succeeded, so it cannot have
    become ready. -/
theorem waiting_or_done {d : Nat} (h : Tracks needs won ended [] ((g, d) :: stack) s) :
    s.progress[g]? = some .waiting ∨ s.progress[g]? = some .done := by
  obtain ⟨hgd, -, hwon⟩ := h.on_stack g d List.mem_cons_self
  have hlt : g < s.size := h.size ▸ hgd.lt
  obtain ⟨p, hp⟩ := exists_progress hlt
  cases p with
  | waiting => exact Or.inl hp
  | done => exact Or.inr hp
  | ready => exact absurd (h.needs_won (Or.inl hp) hgd) hwon
  | running => exact absurd (h.needs_won (Or.inr hp) hgd) hwon

theorem cascade (h : Tracks needs won ended [] stack s) :
    Tracks needs won ended [] [] (s.cascade stack) := by
  fun_induction Schedule.cascade s stack with
  | case1 s => exact h
  | case2 s g d stack p hp hopen ih =>
    refine ih (h.giveUp (h.waiting_or_done.resolve_right fun hdone => ?_))
    obtain rfl : p = .done := Option.some.inj (hp.symm.trans hdone)
    simp [isOpen] at hopen
  | case3 s g d stack p hp hopen ih =>
    refine ih (h.pop (h.waiting_or_done.resolve_left fun hwait => hopen ?_))
    obtain rfl : p = .waiting := Option.some.inj (hp.symm.trans hwait)
    rfl
  | case4 s g d stack hp ih =>
    rcases h.waiting_or_done with hg | hg <;> simp [hp] at hg

/-! ### Steps -/

theorem start (needs : List (List Nat)) : Tracks needs [] [] [] [] (Schedule.start needs) := by
  have hprog (g : Nat) (p : Progress) (hg : (Schedule.start needs).progress[g]? = some p) :
      ∃ ns, needs[g]? = some ns ∧ p = if ns.isEmpty then .ready else .waiting := by
    have hlt : g < (Schedule.start needs).size := (List.getElem?_eq_some_iff.1 hg).1
    rw [start_size] at hlt
    have hns := List.getElem?_eq_getElem hlt
    exact ⟨_, hns, Option.some.inj (hg.symm.trans (start_progress needs hns))⟩
  have hpending (g : Nat) (ns : List Nat) (hg : needs[g]? = some ns) :
      (Schedule.start needs).pending[g]? = some ns.length := by
    simp [start_pending, hg]
  have hnone (g : Nat) : (Schedule.start needs).progress[g]? ≠ some .done := by
    intro hg
    obtain ⟨ns, -, hp⟩ := hprog g _ hg
    split_ifs at hp
  refine ⟨start_size needs, start_dependents needs, fun g ns hg => ?_, fun g hg => ?_,
    fun g hg => ?_, by simp, fun g hg => absurd hg (hnone g), by simp,
    fun g d _ hd => absurd hd (hnone d)⟩
  · simp [hpending g ns hg]
  · obtain ⟨ns, hns, hp⟩ := hprog g _ hg
    rw [hpending g ns hns]
    split_ifs at hp with hempty
    simpa using hempty
  · rcases hg with hg | hg
    · obtain ⟨ns, hns, hp⟩ := hprog g _ hg
      rw [hpending g ns hns]
      split_ifs at hp with hempty
      simpa using hempty
    · obtain ⟨ns, -, hp⟩ := hprog g _ hg
      split_ifs at hp

theorem enter {rest : List Nat} (h : Tracks needs won ended [] [] s)
    (hg : s.progress[g]? = some .ready) : Tracks needs won ended [] [] (s.enter g rest) := by
  have hprog := getElem?_set_of_some hg Progress.running
  have hdone (x : Nat) : (s.progress.set g .running)[x]? = some .done ↔
      s.progress[x]? = some .done := getElem?_set_eq_some_iff hg (by simp) (by simp)
  refine ⟨List.length_set.trans h.size, h.dependents, h.pending,
    fun x hx => h.waiting x (getElem?_of_set hg (by simp) hx), fun x hx => ?_,
    fun x hx => (hdone x).2 (h.won_done x hx), fun x hx => ?_, by simp,
    fun x d hxd hd hdw => ?_⟩
  · by_cases hxg : x = g
    · exact h.begun x (Or.inl (hxg ▸ hg))
    · simp only [Schedule.enter, hprog, if_neg hxg] at hx
      exact h.begun x hx
  · simp only [Schedule.enter, hdone] at hx ⊢
    exact h.done x hx
  · simp only [Schedule.enter, hdone] at hd ⊢
    exact h.failed x d hxd hd hdw

theorem countP_notMem_append {ns : List Nat} (hg : g ∉ won) :
    ns.countP (· ∉ won) = ns.countP (· ∉ won ++ [g]) + ns.count g := by
  induction ns with
  | nil => rfl
  | cons d ns ih =>
    simp only [List.countP_cons, List.count_cons, ih]
    by_cases hdg : d = g
    · simp [hdg, hg]
      omega
    · by_cases hdw : d ∈ won <;> simp [hdg, hdw]
      omega

section
variable (h : Tracks needs won ended [] [] s) (hg : s.progress[g]? = some .running)
include h hg

/-- A group has ended, with or without success; what that means for the others is yet to
    come. -/
theorem complete {won' : List Nat} (hwon : ∀ d, d ≠ g → (d ∈ won' ↔ d ∈ won))
    (hpending : ∀ x ns, needs[x]? = some ns →
      s.pending[x]? = some (ns.countP (· ∉ won') + owed.count x))
    (hstack : ∀ x d, (x, d) ∈ stack ↔ d = g ∧ g ∉ won' ∧ Needs needs x g) :
    Tracks needs won' (ended ++ [g]) owed stack (s.complete g) := by
  have hne (x : Nat) (hx : s.progress[x]? = some .done) : x ≠ g := by
    rintro rfl
    simp [hg] at hx
  have hdone (x : Nat) : (s.complete g).progress[x]? = some .done ↔
      x = g ∨ s.progress[x]? = some .done := by
    simp only [Schedule.complete, getElem?_set_of_some hg]
    split_ifs with hxg <;> simp [hxg]
  refine ⟨List.length_set.trans h.size, h.dependents, hpending,
    fun x hx => h.waiting x (getElem?_of_set hg (by simp) hx),
    fun x hx => h.begun x
      (hx.imp (getElem?_of_set hg (by simp)) (getElem?_of_set hg (by simp))),
    fun x hx => (hdone x).2 ?_, fun x hx => ?_, fun x d hxd => ?_, fun x d hxd hd hdw => ?_⟩
  · by_cases hxg : x = g
    · exact Or.inl hxg
    · exact Or.inr (h.won_done x ((hwon x hxg).1 hx))
  · rcases (hdone x).1 hx with rfl | hx
    · exact Or.inl (List.mem_append_right _ (List.mem_singleton_self x))
    · rcases h.done x hx with he | ⟨d, hmem, hxd, hd, hdw⟩
      · exact Or.inl (List.mem_append_left _ he)
      · exact Or.inr ⟨d, hmem, hxd, (hdone d).2 (Or.inr hd),
          fun hw => hdw ((hwon d (hne d hd)).1 hw)⟩
  · obtain ⟨rfl, hdw, hneed⟩ := (hstack x d).1 hxd
    exact ⟨hneed, (hdone d).2 (Or.inl rfl), hdw⟩
  · rcases (hdone d).1 hd with rfl | hd
    · exact Or.inr ⟨d, (hstack x d).2 ⟨rfl, hdw, hxd⟩⟩
    · have hx := h.failed x d hxd hd fun hw => hdw ((hwon d (hne d hd)).2 hw)
      exact Or.inl ((hdone x).2 (Or.inr (hx.resolve_right (by simp))))

theorem finish (succeeded : Bool) :
    Tracks needs (if succeeded then won ++ [g] else won) (ended ++ [g]) [] []
      (s.finish g succeeded) := by
  have hlt : g < needs.length := h.size ▸ (List.getElem?_eq_some_iff.1 hg).1
  have hgwon : g ∉ won := fun hw => by simp [h.won_done g hw] at hg
  cases succeeded with
  | true =>
    rw [finish_true]
    refine Tracks.foldl_satisfy (h.complete hg (fun d hd => by simp [hd]) (fun x ns hx => ?_)
      (by simp)) fun x hx => ((h.mem_dependents hlt).1 hx).lt
    rw [h.pending x ns hx, countP_notMem_append hgwon, h.dependents]
    simp [List.getD_eq_getElem?_getD, hlt, count_dependentsOf hx]
  | false =>
    rw [finish_false]
    refine Tracks.cascade (h.complete hg (fun _ _ => Iff.rfl) h.pending fun x d => ?_)
    simp only [List.mem_reverse, List.mem_map, Prod.mk.injEq, h.mem_dependents hlt]
    constructor
    · rintro ⟨y, hy, rfl, rfl⟩
      exact ⟨rfl, hgwon, hy⟩
    · rintro ⟨rfl, -, hx⟩
      exact ⟨x, hx, rfl, rfl⟩

end

/-- **Groups that do not need one another in a circle are never let go early**: what a waiting
    group needs has not succeeded, so it waits or runs itself. -/
theorem ready_ne_nil (h : Tracks needs won ended [] [] s) (hacyclic : Acyclic needs)
    (hs : Sound s) (hover : s.isOver = false) (hawake : s.awake = true) : s.ready ≠ [] := by
  intro hready
  have hrunning : s.running = 0 := by simpa [awake, hover, hready] using hawake
  rw [hs.running_eq, List.count_eq_zero] at hrunning
  -- no group is ready or running, so what a waiting one needs would have to wait as well
  have hnone (g : Nat) (hg : g < needs.length) : s.progress[g]? ≠ some .waiting := by
    refine hacyclic.induction (p := fun g => s.progress[g]? ≠ some .waiting)
      (fun g hg ih hw => ?_) g hg
    obtain ⟨d, hgd, hdwon⟩ := h.exists_not_won hw
    have hlt : d < s.size := h.size ▸ hacyclic.lt_length g d hgd
    obtain ⟨p, hp⟩ := exists_progress hlt
    cases p with
    | waiting => exact ih d hgd hp
    | ready => simpa [hready] using (hs.mem_ready d).2 hp
    | running => exact hrunning (List.mem_of_getElem? hp)
    | done => simpa [hw] using h.failed g d hgd hp hdwon
  refine absurd (hs.isOver_iff.2 fun g hg => ?_) (Bool.eq_false_iff.1 hover)
  obtain ⟨p, hp⟩ := exists_progress hg
  cases p with
  | waiting => exact absurd hp (hnone g (h.size ▸ hg))
  | ready => simpa [hready] using (hs.mem_ready g).2 hp
  | running => exact absurd (List.mem_of_getElem? hp) hrunning
  | done => exact hp

theorem take (h : Tracks needs won ended [] [] s) (hacyclic : Acyclic needs) (hs : Sound s)
    (ht : s.take? = some (g, s')) :
    (∀ d, Needs needs g d → d ∈ won) ∧ Tracks needs won ended [] [] s' := by
  obtain ⟨hover, hawake, rest, hr, rfl⟩ := take?_eq_some.1 ht
  rw [offer_eq_self (h.ready_ne_nil hacyclic hs hover hawake)] at hr ⊢
  have hg : s.progress[g]? = some .ready := (hs.mem_ready g).1 (by simp [hr])
  exact ⟨fun d hd => h.needs_won (Or.inl hg) hd, h.enter hg⟩

end Tracks

end Schedule

/-! ## Runs -/

namespace Crew

variable {needs : List (List Nat)} {c₀ c c' : Crew} {moves : List Move} {m : Move} {g d : Nat}

/-- The groups that have succeeded, in the order in which they ended. -/
def succeeded (moves : List Move) : List Nat :=
  moves.filterMap fun
    | .finish g true => some g
    | _ => none

/-- The groups that were compiled, in the order in which they ended. -/
def ended (moves : List Move) : List Nat :=
  moves.filterMap fun
    | .finish g _ => some g
    | _ => none

theorem mem_succeeded : g ∈ succeeded moves ↔ .finish g true ∈ moves := by
  unfold succeeded
  rw [List.mem_filterMap]
  constructor
  · rintro ⟨m, hm, hg⟩
    split at hg <;> simp at hg
    exact hg ▸ hm
  · exact fun h => ⟨_, h, rfl⟩

theorem mem_ended : g ∈ ended moves ↔ ∃ ok, .finish g ok ∈ moves := by
  unfold ended
  rw [List.mem_filterMap]
  constructor
  · rintro ⟨m, hm, hg⟩
    split at hg <;> simp at hg
    exact ⟨_, hg ▸ hm⟩
  · exact fun ⟨ok, h⟩ => ⟨_, h, rfl⟩

/-- What is known of a crew that has made some moves. -/
structure Traced (needs : List (List Nat)) (moves : List Move) (c : Crew) : Prop where
  sound : Sound c
  tracks : c.schedule.Tracks needs (succeeded moves) (ended moves) [] []
  begun : ∀ g : Nat, c.schedule.progress[g]? = some .running ∨ g ∈ ended moves →
    .start g ∈ moves
  closed : ∀ g, .start g ∈ moves → ∀ d, TransGen (Needs needs) g d → .finish d true ∈ moves

theorem traced_start (needs : List (List Nat)) (threads : Nat) :
    Traced needs [] (start needs threads) := by
  refine ⟨sound_start needs threads, .start needs, fun g hg => ?_, by simp⟩
  rcases hg with hg | hg
  · have := ((sound_start needs threads).running g).1 hg
    simp [start] at this
  · simp [ended] at hg

theorem Traced.started_of_ended {ok : Bool} (h : Traced needs moves c)
    (hg : .finish g ok ∈ moves) : .start g ∈ moves :=
  h.begun g (Or.inr (mem_ended.2 ⟨ok, hg⟩))

/-- What a group needs that starts now has succeeded, and so has all that that needs. -/
theorem Traced.needs_won (h : Traced needs moves c)
    (hg : ∀ d, Needs needs g d → d ∈ succeeded moves) (hd : TransGen (Needs needs) g d) :
    .finish d true ∈ moves := by
  obtain ⟨e, hge, hed⟩ := TransGen.head'_iff.1 hd
  have he := mem_succeeded.1 (hg e hge)
  rcases reflTransGen_iff_eq_or_transGen.1 hed with rfl | hed
  · exact he
  · exact h.closed e (h.started_of_ended he) d hed

theorem Traced.start (h : Traced needs moves c) (hacyclic : Acyclic needs)
    (hstep : Step c (.start g) c') (hd : TransGen (Needs needs) g d) : .finish d true ∈ moves := by
  cases hstep with
  | start hi ht => exact h.needs_won (h.tracks.take hacyclic h.sound.schedule ht).1 hd

theorem Traced.step (h : Traced needs moves c) (hacyclic : Acyclic needs) (hstep : Step c m c') :
    Traced needs (moves ++ [m]) c' := by
  have hsound := hstep.sound h.sound
  have hclosed (g : Nat) (hg : .start g ∈ moves ++ [m]) (d : Nat)
      (hd : TransGen (Needs needs) g d) : .finish d true ∈ moves ++ [m] := by
    rw [List.mem_append] at hg ⊢
    refine Or.inl (hg.elim (fun hg => h.closed g hg d hd) fun hg => ?_)
    obtain rfl : .start g = m := List.mem_singleton.1 hg
    exact h.start hacyclic hstep hd
  have hbegun (g : Nat) (hg : c.schedule.progress[g]? = some .running ∨ g ∈ ended moves) :
      .start g ∈ moves ++ [m] := List.mem_append_left _ (h.begun g hg)
  cases hstep with
  | @start s s' ts i g hi ht =>
    have htaken := (h.sound.schedule.taken ht).2
    refine ⟨hsound, ?_, fun x hx => ?_, hclosed⟩
    · simpa [succeeded, ended] using (h.tracks.take hacyclic h.sound.schedule ht).2
    · rcases hx with hx | hx
      · rcases (htaken.running x).1 hx with rfl | hx
        · simp
        · exact hbegun x (Or.inl hx)
      · exact hbegun x (Or.inr (by simpa [ended] using hx))
  | @finish s ts i g ok hi =>
    have hrun := (h.sound.running g).2 (List.mem_of_getElem? hi)
    have hfin := (h.sound.schedule.finished hrun ok).2
    refine ⟨hsound, ?_, fun x hx => ?_, hclosed⟩
    · have := h.tracks.finish hrun ok
      cases ok <;> simpa [succeeded, ended] using this
    · rcases hx with hx | hx
      · exact hbegun x (Or.inl ((hfin.running x).1 hx).2)
      · have hx' : x ∈ ended moves ∨ x = g := by
          simpa [ended, List.filterMap_append] using hx
        rcases hx' with hx | rfl
        · exact hbegun x (Or.inr hx)
        · exact hbegun x (Or.inl hrun)
  | sleep =>
    exact ⟨hsound, by simpa [succeeded, ended] using h.tracks,
      fun x hx => hbegun x (by simpa [ended] using hx), hclosed⟩
  | leave =>
    exact ⟨hsound, by simpa [succeeded, ended] using h.tracks,
      fun x hx => hbegun x (by simpa [ended] using hx), hclosed⟩

theorem Run.traced {threads : Nat} (hrun : Run (Crew.start needs threads) moves c)
    (hacyclic : Acyclic needs) : Traced needs moves c := by
  induction hrun with
  | nil => exact traced_start needs threads
  | snoc _ hstep ih => exact ih.step hacyclic hstep

/-- The state before a move of a run. -/
theorem Run.exists_step {earlier later : List Move}
    (hrun : Run c₀ (earlier ++ m :: later) c') :
    ∃ c c'', Run c₀ earlier c ∧ Step c m c'' := by
  generalize hmoves : earlier ++ m :: later = moves at hrun
  induction hrun generalizing later with
  | nil => simp at hmoves
  | @snoc moves c c'' m' hrun hstep ih =>
    rcases later.eq_nil_or_concat' with rfl | ⟨later, m'', rfl⟩
    · obtain ⟨rfl, hm⟩ := List.append_inj' hmoves rfl
      obtain rfl := List.singleton_inj.1 hm
      exact ⟨c, c'', hrun, hstep⟩
    · rw [← List.cons_append, ← List.append_assoc] at hmoves
      exact ih (List.append_inj' hmoves rfl).1

/-- Whether a group succeeds is fixed, whenever it is compiled. -/
def Obeys (succeeds : Nat → Bool) (moves : List Move) : Prop :=
  ∀ g ok, .finish g ok ∈ moves → ok = succeeds g

/-- What a run comes to whichever way it goes, by what the groups need and which of them
    succeed when they are compiled. -/
structure Settled (needs : List (List Nat)) (succeeds : Nat → Bool) (moves : List Move)
    (c : Crew) : Prop where
  /-- When a group starts, all that it needs has succeeded. -/
  after : ∀ earlier g later, moves = earlier ++ .start g :: later →
    ∀ d, TransGen (Needs needs) g d → .start d ∈ earlier ∧ .finish d true ∈ earlier
  /-- A group that needs one that failed is never started. -/
  not_started : ∀ g d, TransGen (Needs needs) g d → .finish d false ∈ moves →
    .start g ∉ moves ∧ .finish g true ∉ moves
  started_iff : Stuck c → ∀ g < needs.length, .start g ∈ moves ↔
    ∀ d, TransGen (Needs needs) g d → .start d ∈ moves ∧ .finish d true ∈ moves
  /-- A group is given up in the end because of one that it needs and that did not succeed. -/
  given_up : Stuck c → ∀ g d, TransGen (Needs needs) g d → .finish d true ∉ moves →
    .start g ∉ moves ∧ .finish g true ∉ moves ∧ c.schedule.progress[g]? = some .done ∧
      ∃ cause, (g, cause) ∈ c.schedule.givenUp ∧ Needs needs g cause ∧
        .finish cause true ∉ moves
  succeeded_iff : Stuck c → ∀ g, .finish g true ∈ moves ↔
    g < needs.length ∧ succeeds g = true ∧ ∀ d, TransGen (Needs needs) g d → succeeds d = true

theorem lt_of_transGen (h : TransGen (Needs needs) g d) : g < needs.length := by
  obtain ⟨e, he, -⟩ := TransGen.head'_iff.1 h
  exact he.lt

section
variable {threads : Nat} {succeeds : Nat → Bool} (hrun : Run (Crew.start needs threads) moves c)
  (hacyclic : Acyclic needs) (hthreads : 0 < threads)
include hrun hacyclic

/-- When a group starts, all that it needs has started and succeeded before. -/
theorem Run.after {earlier later : List Move} (hmoves : moves = earlier ++ .start g :: later)
    (hd : TransGen (Needs needs) g d) : .start d ∈ earlier ∧ .finish d true ∈ earlier := by
  subst hmoves
  obtain ⟨c, c', hearlier, hstep⟩ := hrun.exists_step
  have ht := hearlier.traced hacyclic
  have hsuccess := ht.start hacyclic hstep hd
  exact ⟨ht.started_of_ended hsuccess, hsuccess⟩

/-- A group that needs one that failed never starts. -/
theorem Run.not_started (hobeys : Obeys succeeds moves) (hgd : TransGen (Needs needs) g d)
    (hd : .finish d false ∈ moves) : .start g ∉ moves := by
  intro hg
  have htrue := hobeys d true ((hrun.traced hacyclic).closed g hg d hgd)
  rw [← hobeys d false hd] at htrue
  cases htrue

include hthreads

/-- In the end each group was compiled, or given up because of one that did not succeed. -/
theorem Run.compiled_or_givenUp (hstuck : Stuck c) (hg : g < needs.length) :
    (∃ ok, .finish g ok ∈ moves) ∨
      ∃ cause, (g, cause) ∈ c.schedule.givenUp ∧ Needs needs g cause ∧
        .finish cause true ∉ moves := by
  have hdone := (hrun.of_stuck hthreads hstuck).1 g hg
  rcases (hrun.traced hacyclic).tracks.done g hdone with he | ⟨d, hmem, hgd, -, hdw⟩
  · exact Or.inl (mem_ended.1 he)
  · exact Or.inr ⟨d, hmem, hgd, fun hd => hdw (mem_succeeded.2 hd)⟩

/-- A group starts if all that it needs directly succeeds. -/
theorem Run.exists_finish (hstuck : Stuck c) (hg : g < needs.length)
    (hall : ∀ d, Needs needs g d → .finish d true ∈ moves) : ∃ ok, .finish g ok ∈ moves := by
  refine (hrun.compiled_or_givenUp hacyclic hthreads hstuck hg).resolve_right ?_
  rintro ⟨cause, -, hgc, hcause⟩
  exact hcause (hall cause hgc)

/-- A group succeeds if it and all that it needs succeed when they are compiled. -/
theorem Run.mem_of_succeeds (hobeys : Obeys succeeds moves) (hstuck : Stuck c) (hg : g < needs.length)
    (hsucceeds : succeeds g = true)
    (hall : ∀ d, TransGen (Needs needs) g d → succeeds d = true) : .finish g true ∈ moves := by
  revert hsucceeds hall
  refine hacyclic.induction (p := fun g => succeeds g = true →
    (∀ d, TransGen (Needs needs) g d → succeeds d = true) → .finish g true ∈ moves)
    (fun g hg ih hsucceeds hall => ?_) g hg
  have hneeds (d : Nat) (hgd : Needs needs g d) : .finish d true ∈ moves :=
    ih d hgd (hall d (.single hgd)) fun e hde => hall e (.head hgd hde)
  obtain ⟨ok, hok⟩ := hrun.exists_finish hacyclic hthreads hstuck hg hneeds
  rwa [hobeys g ok hok, hsucceeds] at hok

theorem Run.settled (hobeys : Obeys succeeds moves) : Settled needs succeeds moves c := by
  have ht := hrun.traced hacyclic
  refine ⟨fun earlier g later hmoves d hgd => hrun.after hacyclic hmoves hgd,
    fun g d hgd hd => ?_, fun hstuck g hg => ⟨fun hs d hgd => ?_, fun hall => ?_⟩,
    fun hstuck g d hgd hd => ?_, fun hstuck g => ⟨fun hg => ?_, ?_⟩⟩
  · have hs := hrun.not_started hacyclic hobeys hgd hd
    exact ⟨hs, fun hg => hs (ht.started_of_ended hg)⟩
  · have hd := ht.closed g hs d hgd
    exact ⟨ht.started_of_ended hd, hd⟩
  · obtain ⟨ok, hok⟩ := hrun.exists_finish hacyclic hthreads hstuck hg fun d hgd =>
      (hall d (.single hgd)).2
    exact ht.started_of_ended hok
  · have hs : .start g ∉ moves := fun hs => hd (ht.closed g hs d hgd)
    have hlt := lt_of_transGen hgd
    refine ⟨hs, fun hg => hs (ht.started_of_ended hg),
      (hrun.of_stuck hthreads hstuck).1 g hlt, ?_⟩
    refine (hrun.compiled_or_givenUp hacyclic hthreads hstuck hlt).resolve_left ?_
    rintro ⟨ok, hok⟩
    exact hs (ht.started_of_ended hok)
  · have hlt : g < needs.length := by
      rw [← hrun.size_start]
      exact (List.getElem?_eq_some_iff.1 (ht.tracks.won_done g (mem_succeeded.2 hg))).1
    exact ⟨hlt, (hobeys g true hg).symm,
      fun d hgd => (hobeys d true (ht.closed g (ht.started_of_ended hg) d hgd)).symm⟩
  · rintro ⟨hg, hsucceeds, hall⟩
    exact hrun.mem_of_succeeds hacyclic hthreads hobeys hstuck hg hsucceeds hall

end

/-- **What is compiled, and with what success, is settled by what the groups need and which of
    them succeed**: by neither the number of threads nor the order in which they go on. -/
theorem run_settled {threads : Nat} {succeeds : Nat → Bool} (hacyclic : Acyclic needs)
    (hthreads : 0 < threads) (hrun : Run (Crew.start needs threads) moves c)
    (hobeys : Obeys succeeds moves) :
    Settled needs succeeds moves c ∧
      ∀ threads' moves' c', 0 < threads' → Run (Crew.start needs threads') moves' c' →
        Obeys succeeds moves' → Stuck c → Stuck c' →
          ∀ g, .finish g true ∈ moves ↔ .finish g true ∈ moves' := by
  have hsettled := hrun.settled hacyclic hthreads hobeys
  refine ⟨hsettled, fun threads' moves' c' hthreads' hrun' hobeys' hstuck hstuck' g => ?_⟩
  rw [hsettled.succeeded_iff hstuck,
    (hrun'.settled hacyclic hthreads' hobeys').succeeded_iff hstuck']

/-- Groups that each need only earlier ones. -/
theorem acyclic_of_lt (h : ∀ g d, Needs needs g d → d < g) : Acyclic needs := by
  have hlt (g d : Nat) (hgd : TransGen (Needs needs) g d) : d < g := by
    induction hgd with
    | single hgd => exact h _ _ hgd
    | tail _ hed ih => exact (h _ _ hed).trans ih
  exact ⟨fun g d hgd => (h g d hgd).trans hgd.lt, fun g hg => Nat.lt_irrefl g (hlt g g hg)⟩

/-- A group that fails, two that need it, and one that needs nothing. -/
def oneFailure : List Move :=
  [.start 0, .start 3, .finish 0 false, .finish 3 true, .leave, .leave]

theorem run_settled_oneFailure : Acyclic [[], [0], [1], []] ∧ 0 < 2 ∧
    Obeys (· != 0) oneFailure ∧ ∃ c, Run (Crew.start [[], [0], [1], []] 2) oneFailure c ∧
      Stuck c ∧ Settled [[], [0], [1], []] (· != 0) oneFailure c := by
  have hacyclic : Acyclic [[], [0], [1], []] := by
    refine acyclic_of_lt fun g d ⟨ns, hns, hd⟩ => ?_
    rcases g with _ | _ | _ | _ | g <;> simp at hns <;> subst hns <;> simp at hd <;> omega
  have hobeys : Obeys (· != 0) oneFailure := by
    intro g ok h
    simp only [oneFailure, List.mem_cons, reduceCtorEq, Move.finish.injEq, List.not_mem_nil] at h
    rcases h with h | h | ⟨rfl, rfl⟩ | ⟨rfl, rfl⟩ | h | h | h
    all_goals first | contradiction | rfl
  have hstarted := (Run.nil (c := Crew.start [[], [0], [1], []] 2)).snoc
    (.start (i := 0) rfl rfl) |>.snoc (.start (i := 1) rfl rfl)
  have hended := (hstarted.snoc (.finish (i := 0) false rfl)).snoc (.finish (i := 1) true rfl)
  -- the failure leads to the second group, and from there to the third
  have hgiveUp : (⟨[.running, .waiting, .waiting, .running], [0, 1, 1, 0], [[1], [2], [], []],
      [], 0, 2, []⟩ : Schedule).finish 0 false = ⟨[.done, .done, .done, .running], [0, 1, 1, 0],
      [[1], [2], [], []], [], 3, 1, [(1, 0), (2, 1)]⟩ := by
    rw [Schedule.finish_false]
    change Schedule.cascade _ [(1, 0)] = _
    rw [Schedule.cascade_cons_of_open rfl rfl]
    change Schedule.cascade _ [(2, 1)] = _
    rw [Schedule.cascade_cons_of_open rfl rfl]
    change Schedule.cascade _ [] = _
    rw [Schedule.cascade]
    rfl
  have hrun := (hended.snoc (.leave (i := 0) rfl (hgiveUp ▸ rfl))).snoc
    (.leave (i := 1) rfl (hgiveUp ▸ rfl))
  refine ⟨hacyclic, by decide, hobeys, _, hrun, fun m c' hstep => ?_,
    (run_settled hacyclic (by decide) hrun hobeys).1⟩
  have hleft (t : Thread) (i : Nat) (h : [Thread.left, Thread.left][i]? = some t) : t = .left := by
    simpa using List.mem_of_getElem? h
  cases hstep with
  | start hi | sleep hi | leave hi | finish _ hi => simpa using hleft _ _ hi

end Crew

end Rebuild
