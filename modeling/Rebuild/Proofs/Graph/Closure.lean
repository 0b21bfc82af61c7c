/-
  The closure of some names is exactly what depends on them.

  * `Graph.Round` is a round of the search, which may take up its work in any order;
  * `Marking` is what every round keeps: the nodes that are marked are those worked on and those
    still to be worked on, and a node worked on has all its dependents marked;
  * `Marking.acc`: no order of rounds goes on forever, and `Marking.mark`: `Graph.mark` goes on
    until nothing is left to be worked on;
  * `mem_closure`: a name is in the closure iff a path of dependencies leads from it to
    one of the names.
-/
import Rebuild.Proofs.Graph.Basic

namespace Rebuild

namespace Graph

open Relation

/-! ## Rounds -/

/-- The nodes that depend on `v` and are not marked yet. -/
def fresh (g : Graph) (seen : Array Bool) (v : Nat) : List Nat :=
  (g.back v).toList.filter fun w => !seen.getD w true

/-- The marks with some more nodes marked. -/
def markAll (seen : Array Bool) (vs : List Nat) : Array Bool :=
  vs.foldl (fun seen w => seen.setIfInBounds w true) seen

/-- One round of a search, from the marks and the work before it to those behind it: some node is
    taken out of the work, and its dependents that are not marked yet are marked and join the
    work. -/
inductive Round (g : Graph) : Array Bool × List Nat → Array Bool × List Nat → Prop
  | mk {seen : Array Bool} {work rest left : List Nat} {v : Nat} (htaken : work.Perm (v :: rest))
      (hleft : left.Perm (g.fresh seen v ++ rest)) :
      Round g (seen, work) (markAll seen (g.fresh seen v), left)

/-- The marks and the work to begin with: the seeds that are nodes. -/
def start (g : Graph) (seeds : TextSet) : Array Bool × List Nat :=
  let work := seeds.toList.filterMap (g.numbers[·]?)
  (markAll (Array.replicate g.size false) work, work)

theorem mark_cons (g : Graph) (rounds : Nat) (seen : Array Bool) (v : Nat) (work : List Nat) :
    g.mark (rounds + 1) seen (v :: work) =
      g.mark rounds (markAll seen (g.fresh seen v)) (g.fresh seen v ++ work) := rfl

theorem marked_eq (g : Graph) (seeds : TextSet) :
    g.marked seeds = g.mark g.size (g.start seeds).1 (g.start seeds).2 := rfl

/-! ## Markings -/

/-- The marks after the nodes `old` were worked on and with the nodes `work` to come. -/
structure Marking (g : Graph) (seen : Array Bool) (work old : List Nat) : Prop where
  size_eq : seen.size = g.size
  marked_iff : ∀ v, seen.getD v false = true ↔ v ∈ old ∨ v ∈ work
  nodup : (old ++ work).Nodup
  closed : ∀ v ∈ old, ∀ w ∈ g.back v, w ∈ old ∨ w ∈ work

namespace Marking

variable {g : Graph} {seen : Array Bool} {work old : List Nat}

theorem lt_size (h : g.Marking seen work old) {v : Nat} (hv : v ∈ old ∨ v ∈ work) : v < g.size :=
  h.size_eq ▸ lt_size_of_getD ((h.marked_iff v).2 hv)

/-- There are no more nodes than the graph has. -/
theorem length_le (h : g.Marking seen work old) : old.length + work.length ≤ g.size := by
  rw [← List.length_append]
  exact length_le_of_nodup_lt h.nodup fun v hv => h.lt_size (List.mem_append.1 hv)

/-- The dependents of `v` that are not marked yet. -/
theorem mem_fresh (hg : g.WellFormed) (h : g.Marking seen work old) {v w : Nat} :
    w ∈ g.fresh seen v ↔ w ∈ g.back v ∧ w ∉ old ∧ w ∉ work := by
  have hd : w ∈ g.back v → (seen.getD w true = seen.getD w false) := fun hw => by
    have hs : w < seen.size := h.size_eq ▸ hg.next_source_lt ((hg.mem_back w v).1 hw)
    simp [Array.getD_eq_getD_getElem?, Array.getElem?_eq_getElem hs]
  rw [fresh, List.mem_filter, Std.ExtTreeSet.mem_toList]
  refine and_congr_right fun hw => ?_
  rw [hd hw, Bool.not_eq_true', ← Bool.not_eq_true, h.marked_iff, not_or]

/-- What is marked after a round was marked before it, or is one of `fresh`. -/
theorem mem_round {v w : Nat} {fresh : List Nat} :
    w ∈ v :: old ∨ w ∈ fresh ++ work ↔ (w ∈ old ∨ w ∈ v :: work) ∨ w ∈ fresh := by
  simp only [List.mem_cons, List.mem_append, or_assoc, or_left_comm, or_comm]

/-- One round with the node in front keeps the marking. -/
theorem step (hg : g.WellFormed) {v : Nat} (h : g.Marking seen (v :: work) old) :
    g.Marking (markAll seen (g.fresh seen v)) (g.fresh seen v ++ work) (v :: old) := by
  have hf : ∀ w, w ∈ g.fresh seen v ↔ w ∈ g.back v ∧ w ∉ old ∧ w ∉ v :: work := fun w =>
    h.mem_fresh hg
  have hfd : (g.fresh seen v).Nodup := nodup_toList.filter _
  have hd := h.nodup
  rw [List.nodup_append] at hd
  obtain ⟨ho, hw, hne⟩ := hd
  rw [List.nodup_cons] at hw
  refine ⟨by simp [markAll, h.size_eq], fun w => ?_, ?_, ?_⟩
  · have hlt : w ∈ g.fresh seen v → w < seen.size := fun hw' => by
      rw [h.size_eq]
      exact hg.next_source_lt ((hg.mem_back w v).1 ((hf w).1 hw').1)
    rw [mem_round, markAll, getD_foldl_set]
    by_cases hwf : w ∈ g.fresh seen v
    · simp [hwf, hlt hwf]
    · simpa only [hwf, false_and, if_false, or_false] using h.marked_iff w
  · rw [List.cons_append, List.nodup_cons, List.nodup_append, List.nodup_append]
    refine ⟨fun hv => ?_, ho, ⟨hfd, hw.2, fun x hx y hy hxy => ?_⟩, fun x hx y hy hxy => ?_⟩
    · rcases List.mem_append.1 hv with hv | hv
      · exact hne v hv v List.mem_cons_self rfl
      · rcases List.mem_append.1 hv with hv | hv
        · exact ((hf v).1 hv).2.2 List.mem_cons_self
        · exact hw.1 hv
    · subst hxy
      exact ((hf x).1 hx).2.2 (List.mem_cons_of_mem v hy)
    · subst hxy
      rcases List.mem_append.1 hy with hy | hy
      · exact ((hf x).1 hy).2.1 hx
      · exact hne x hx x (List.mem_cons_of_mem v hy) rfl
  · intro x hx w hw'
    rw [mem_round]
    rcases List.mem_cons.1 hx with rfl | hx
    · by_cases hm : w ∈ old ∨ w ∈ x :: work
      · exact Or.inl hm
      · exact Or.inr ((hf w).2 ⟨hw', not_or.1 hm⟩)
    · exact Or.inl (h.closed x hx w hw')

/-- The order of the work does not matter. -/
theorem perm {left : List Nat} (h : g.Marking seen work old) (hperm : left.Perm work) :
    g.Marking seen left old where
  size_eq := h.size_eq
  marked_iff v := by rw [h.marked_iff, hperm.mem_iff]
  nodup := ((List.perm_append_left_iff old).2 hperm).nodup_iff.2 h.nodup
  closed v hv w hw := by
    rw [hperm.mem_iff]
    exact h.closed v hv w hw

/-- **One round** takes a node out of the work, keeps the marking, and marks what depends on the
    node. -/
theorem round (hg : g.WellFormed) (h : g.Marking seen work old) {t : Array Bool × List Nat}
    (hround : g.Round (seen, work) t) : ∃ v ∈ work, g.Marking t.1 t.2 (v :: old) ∧
      ∀ w, t.1.getD w false = true ↔ seen.getD w false = true ∨ w ∈ g.back v := by
  obtain @⟨_, _, rest, left, v, htaken, hleft⟩ := hround
  have hv : v ∈ work := htaken.mem_iff.2 List.mem_cons_self
  have hstep := (h.perm htaken.symm).step hg
  refine ⟨v, hv, hstep.perm hleft, fun w => ?_⟩
  rw [hstep.marked_iff, mem_round, (h.perm htaken.symm).mem_fresh hg, ← not_or,
    ← (h.perm htaken.symm).marked_iff]
  tauto

/-- No order of rounds goes on forever, since each node is worked on once. -/
theorem acc (hg : g.WellFormed) (h : g.Marking seen work old) :
    Acc (fun t s => g.Round s t) (seen, work) := by
  generalize hn : g.size - old.length = n
  induction n generalizing seen work old with
  | zero =>
    refine ⟨_, fun t hround => ?_⟩
    obtain ⟨v, hv, -, -⟩ := h.round hg hround
    have hle := h.length_le
    have hpos := List.length_pos_of_mem hv
    omega
  | succ n ih =>
    refine ⟨_, fun t hround => ?_⟩
    obtain ⟨v, -, hmarking, -⟩ := h.round hg hround
    exact ih hmarking (by simp only [List.length_cons]; omega)

/-- **A run of rounds** keeps what is marked, and marks only what has every property that it had
    before and that goes over to dependents. -/
theorem run (hg : g.WellFormed) (h : g.Marking seen work old) {t : Array Bool × List Nat}
    (hrun : ReflTransGen g.Round (seen, work) t) :
    (∃ all, g.Marking t.1 t.2 all) ∧ (∀ v, seen.getD v false = true → t.1.getD v false = true) ∧
      ∀ P : Nat → Prop, (∀ v, seen.getD v false = true → P v) →
        (∀ v, P v → ∀ w ∈ g.back v, P w) → ∀ v, t.1.getD v false = true → P v := by
  induction hrun with
  | refl => exact ⟨⟨old, h⟩, fun v hv => hv, fun P hP _ v hv => hP v hv⟩
  | tail _ hround ih =>
    obtain ⟨⟨all, hall⟩, hkept, hP⟩ := ih
    obtain ⟨v, hv, hmarking, hmarked⟩ := hall.round hg hround
    refine ⟨⟨v :: all, hmarking⟩, fun w hw => (hmarked w).2 (Or.inl (hkept w hw)),
      fun P hbefore hback w hw => ?_⟩
    rcases (hmarked w).1 hw with hw | hw
    · exact hP P hbefore hback w hw
    · exact hback v (hP P hbefore hback v ((hall.marked_iff v).2 (Or.inr hv))) w hw

/-- With as many rounds as there are nodes left, nothing is left to be worked on. -/
theorem mark (hg : g.WellFormed) (rounds : Nat) (h : g.Marking seen work old)
    (hr : g.size ≤ rounds + old.length) :
    ReflTransGen g.Round (seen, work) (g.mark rounds seen work, []) := by
  induction rounds generalizing seen work old with
  | zero =>
    -- as many nodes were worked on as there are, so none is left
    have hw : work = [] := by
      have := h.length_le
      exact List.length_eq_zero_iff.1 (by omega)
    subst hw
    exact .refl
  | succ rounds ih =>
    cases work with
    | nil => exact .refl
    | cons v work =>
      rw [mark_cons]
      exact (ih (h.step hg) (by simp only [List.length_cons]; omega)).head (.mk (.refl _) (.refl _))

end Marking

/-- The search begins with the seeds that are nodes. -/
theorem marking_start {g : Graph} (hg : g.WellFormed) (seeds : TextSet) :
    g.Marking (g.start seeds).1 (g.start seeds).2 [] := by
  have hlt : ∀ v ∈ (g.start seeds).2, v < g.size := fun v hv => by
    obtain ⟨name, -, hn⟩ := List.mem_filterMap.1 hv
    exact hg.lt_size hn
  refine ⟨by simp [start, markAll], fun v => ?_, ?_, by simp⟩
  · change (markAll _ (g.start seeds).2).getD v false = true ↔ _
    rw [markAll, getD_foldl_set]
    have : (Array.replicate g.size false).getD v false = false := by
      simp only [Array.getD_eq_getD_getElem?, Array.getElem?_replicate]
      split <;> rfl
    simp only [this, Array.size_replicate, List.not_mem_nil, false_or]
    by_cases hv : v ∈ (g.start seeds).2
    · simp [hv, hlt v hv]
    · simp [hv]
  · rw [List.nil_append]
    refine List.Pairwise.filterMap _ ?_ (nodup_toList (t := seeds))
    intro a b hne v hv w hw hvw
    subst hvw
    exact hne (hg.number_inj hv hw)

/-- `Graph.marked` is where a run of rounds ends. -/
theorem run_marked {g : Graph} (hg : g.WellFormed) (seeds : TextSet) :
    ReflTransGen g.Round (g.start seeds) (g.marked seeds, []) := by
  rw [marked_eq]
  exact (marking_start hg seeds).mark hg g.size (Nat.le_refl _)

/-- **Where a search ends**, in whatever order it takes up its work, the nodes are marked that
    depend on a seed. -/
theorem mem_marks {g : Graph} (hg : g.WellFormed) {seeds : TextSet} {seen : Array Bool}
    (hrun : ReflTransGen g.Round (g.start seeds) (seen, [])) (v : Nat) :
    seen.getD v false = true ↔
      v < g.size ∧ ∃ s ∈ seeds, ReflTransGen g.Edge (g.nameOf v) s := by
  have hstart := marking_start hg seeds
  obtain ⟨⟨all, hall⟩, hkept, hP⟩ := hstart.run hg hrun
  have hmarked (w : Nat) : seen.getD w false = true ↔ w ∈ all := by simpa using hall.marked_iff w
  have hseed (w : Nat) : (g.start seeds).1.getD w false = true ↔
      ∃ s ∈ seeds, g.numbers[s]? = some w := by
    rw [hstart.marked_iff, or_iff_right List.not_mem_nil, start, List.mem_filterMap]
    simp only [Std.ExtTreeSet.mem_toList]
  constructor
  · intro hm
    refine ⟨hall.lt_size (Or.inl ((hmarked v).1 hm)),
      hP (fun w => ∃ s ∈ seeds, ReflTransGen g.Edge (g.nameOf w) s) (fun w hw => ?_) ?_ v hm⟩
    · obtain ⟨s, hs, hn⟩ := (hseed w).1 hw
      exact ⟨s, hs, by rw [hg.nameOf_eq hn]⟩
    · rintro w ⟨s, hs, hr⟩ x hx
      exact ⟨s, hs, hr.head (hg.edge_nameOf ((hg.mem_back x w).1 hx))⟩
  · rintro ⟨hlt, s, hs, hr⟩
    rw [hmarked]
    have hcl : ∀ a, ReflTransGen g.Edge a s → ∀ w, g.numbers[a]? = some w → w ∈ all := by
      intro a ha
      induction ha using ReflTransGen.head_induction_on with
      | refl =>
        intro w hw
        exact (hmarked w).1 (hkept w ((hseed w).2 ⟨s, hs, hw⟩))
      | head hab _ ih =>
        intro w hw
        obtain ⟨x, y, hx, hy, hxy⟩ := hab
        rw [hw] at hx
        cases hx
        simpa using hall.closed y (ih y hy) w ((hg.mem_back w y).2 hxy)
    exact hcl _ hr v (hg.number_nameOf hlt)

theorem mem_marked {g : Graph} (hg : g.WellFormed) (seeds : TextSet) (v : Nat) :
    (g.marked seeds).getD v false = true ↔
      v < g.size ∧ ∃ s ∈ seeds, ReflTransGen g.Edge (g.nameOf v) s :=
  mem_marks hg (run_marked hg seeds) v

/-- **The closure is what depends on the names**: a name is in it iff dependencies lead
    from it to one of them. -/
theorem mem_closure {g : Graph} (hg : g.WellFormed) {seeds : TextSet} {name : Text} :
    name ∈ g.closure seeds ↔ ∃ s ∈ seeds, ReflTransGen g.Edge name s := by
  simp only [closure, Std.ExtTreeSet.mem_insertMany_list, List.contains_iff_mem, List.mem_map,
    List.mem_filter, List.mem_range, mem_marked hg]
  constructor
  · rintro (h | ⟨v, ⟨-, -, s, hs, hr⟩, rfl⟩)
    · exact ⟨name, h, .refl⟩
    · exact ⟨s, hs, hr⟩
  · rintro ⟨s, hs, hr⟩
    rcases hr.cases_head with rfl | ⟨b, hb, -⟩
    · exact Or.inl hs
    · obtain ⟨v, hv⟩ := contains_iff.1 hb.contains_left
      have hn := hg.nameOf_eq hv
      exact Or.inr ⟨v, ⟨hg.lt_size hv, hg.lt_size hv, s, hs, by rwa [hn]⟩, hn⟩

end Graph

end Rebuild
