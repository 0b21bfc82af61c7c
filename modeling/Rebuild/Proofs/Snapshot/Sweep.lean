/-
  Threads that share a counter look at every item once, in whichever order they go on.

  * `Sweep.Turn` says what one step of a thread can do;
  * `Sweep.Sound` ties the counter to what was looked at and what is held: every number that was
    given out for an item was looked at once or is held by one thread, and nothing else was.
    `Sweep.Turn.sound` is the step, `Sweep.Sound.run` the run;
  * `Sweep.credit` bounds the steps that a thread may still take, whatever the others do, so every
    thread stops (`Sweep.stopped_of_count`).

  `Sweep.complete_inOrder` is what this comes to when all threads have stopped.
-/
import Mathlib.Data.List.Count
import Mathlib.Data.List.Induction
import Mathlib.Data.List.Perm.Basic
import Mathlib.Tactic.Common
import Rebuild.Proofs.Containers
import Rebuild.Snapshot.Sweep

namespace Rebuild

namespace Sweep

variable {α β : Type} {look : β → α} {items : List β} {s s' : Sweep α} {order : List Nat}
  {i j k n : Nat}

/-! ## One step -/

/-- What the next step of thread `k` leads to. -/
inductive Turn (look : β → α) (items : List β) (s : Sweep α) (k : Nat) : Sweep α → Prop
  | idle : s.threads[k]? = none ∨ s.threads[k]? = some .stopped → Turn look items s k s
  | take : s.threads[k]? = some .ready → s.next.toNat < items.length →
      Turn look items s k { s with
        next := s.next + 1
        threads := s.threads.set k (.holding s.next.toNat) }
  | stop : s.threads[k]? = some .ready → items.length ≤ s.next.toNat →
      Turn look items s k { s with
        next := s.next + 1
        threads := s.threads.set k .stopped }
  | visit {i : Nat} : s.threads[k]? = some (.holding i) →
      Turn look items s k { s.visit look items i with threads := s.threads.set k .ready }

theorem turn_step (look : β → α) (items : List β) (s : Sweep α) (k : Nat) :
    Turn look items s k (s.step look items k) := by
  unfold step
  split
  · next h => exact .idle (Or.inl h)
  · next h => exact .idle (Or.inr h)
  · next h =>
    by_cases hlt : s.next.toNat < items.length
    · simp only [if_pos hlt]
      exact .take h hlt
    · simp only [if_neg hlt]
      exact .stop h (Nat.le_of_not_lt hlt)
  · next h => exact .visit h

theorem run_append (look : β → α) (items : List β) (s : Sweep α) (order order' : List Nat) :
    run look items s (order ++ order') = run look items (run look items s order) order' :=
  List.foldl_append

theorem run_concat (look : β → α) (items : List β) (s : Sweep α) (order : List Nat) (k : Nat) :
    run look items s (order ++ [k]) = (run look items s order).step look items k :=
  run_append look items s order [k]

theorem Turn.length_threads (h : Turn look items s k s') :
    s'.threads.length = s.threads.length := by
  cases h with
  | idle => rfl
  | take | stop | visit => exact List.length_set

/-- A step of one thread leaves the others where they are. -/
theorem Turn.getElem?_threads (h : Turn look items s k s') (hjk : j ≠ k) :
    s'.threads[j]? = s.threads[j]? := by
  cases h with
  | idle => rfl
  | take | stop | visit => exact List.getElem?_set_ne (Ne.symm hjk)

theorem Turn.stopped (h : Turn look items s k s') (hj : s.threads[j]? = some .stopped) :
    s'.threads[j]? = some .stopped := by
  by_cases hjk : j = k
  · subst hjk
    cases h with
    | idle => exact hj
    | take hready | stop hready | visit hready => simp [hj] at hready
  · exact (h.getElem?_threads hjk).trans hj

theorem length_threads_run (look : β → α) (items : List β) (s : Sweep α) (order : List Nat) :
    (run look items s order).threads.length = s.threads.length := by
  induction order using List.reverseRecOn with
  | nil => rfl
  | append_singleton order k ih =>
    rw [run_concat]
    exact (turn_step look items _ k).length_threads.trans ih

theorem exists_phase_run (look : β → α) (items : List β) (hk : k < s.threads.length)
    (order : List Nat) : ∃ p, (run look items s order).threads[k]? = some p :=
  ⟨_, List.getElem?_eq_getElem (length_threads_run look items s order ▸ hk)⟩

/-! ## What is written down -/

/-- Of the items that were looked at it is written down what was seen, and of the others
    nothing. -/
structure Noted (look : β → α) (items : List β) (s : Sweep α) : Prop where
  length_eq : s.results.length = items.length
  results : ∀ i < items.length,
    s.results[i]? = some (if i ∈ s.looked then items[i]?.map look else none)

namespace Noted

theorem visit (h : Noted look items s) (i : Nat) : Noted look items (s.visit look items i) := by
  refine ⟨List.length_set.trans h.length_eq, fun j hj => ?_⟩
  simp only [Sweep.visit, List.getElem?_set, List.mem_cons]
  by_cases hij : i = j
  · subst hij
    simp [h.length_eq, hj]
  · simp [hij, Ne.symm hij, h.results j hj]

/-- The order of the threads shows only in the order of looking. -/
theorem results_eq (h : Noted look items s) (hall : ∀ i < items.length, i ∈ s.looked) :
    s.results = items.map fun b => some (look b) := by
  refine List.ext_getElem? fun i => ?_
  by_cases hi : i < items.length
  · simp [h.results i hi, hall i hi, hi]
  · rw [List.getElem?_eq_none (by simpa [h.length_eq] using hi),
      List.getElem?_eq_none (by simpa using hi)]

end Noted

/-- The results in the order of looking are the results, if every place was looked at once. -/
theorem seen_perm_all (h : s.looked.Perm (List.range s.results.length)) : s.seen.Perm s.all := by
  have hplaces : (List.range s.results.length).map (s.results[·]?) = s.results.map some :=
    List.ext_getElem (by simp) (by simp)
  have hall : (List.range s.results.length).filterMap (fun i => s.results[i]?.join) = s.all := by
    rw [← Function.comp_def Option.join, ← List.filterMap_map, hplaces, List.filterMap_map]
    rfl
  exact hall ▸ ((List.reverse_perm _).trans h).filterMap _

/-! ## Numbers that are given out -/

/-- The counter fits what the threads have done and what they hold. -/
structure Sound (look : β → α) (items : List β) (s : Sweep α) : Prop
    extends Noted look items s where
  /-- A number that was given out for an item was looked at once or is held by one thread, and
      no other number was ever either. -/
  given : ∀ i, s.looked.count i + s.threads.count (.holding i) =
    if i < s.next.toNat ∧ i < items.length then 1 else 0
  /-- Every number past the end has stopped a thread. -/
  past : s.threads.count .stopped = s.next.toNat - items.length

theorem noted_start (look : β → α) (items : List β) (threads : Nat) :
    Noted look items (start threads items.length) :=
  ⟨List.length_replicate, fun i hi => by simp [start, hi]⟩

theorem sound_start (look : β → α) (items : List β) (threads : Nat) :
    Sound look items (start threads items.length) :=
  ⟨noted_start look items threads, fun i => by simp [start, List.count_replicate],
    by simp [start, List.count_replicate]⟩

namespace Sound

/-- **The counter does not begin again**: a thread that takes a number has not stopped, so fewer
    numbers than threads have gone past the end. -/
theorem toNat_next (h : Sound look items s) (hroom : items.length + s.threads.length < UInt64.size)
    (hk : s.threads[k]? = some .ready) : (s.next + 1).toNat = s.next.toNat + 1 := by
  have hpast := h.past
  have hlt : s.threads.count .stopped < s.threads.length :=
    List.count_lt_length_iff.2 ⟨_, List.mem_of_getElem? hk, by simp⟩
  have hsmall : s.next.toNat + 1 < UInt64.size := by omega
  rw [UInt64.toNat_add]
  exact Nat.mod_eq_of_lt hsmall

end Sound

theorem Turn.sound (hturn : Turn look items s k s') (h : Sound look items s)
    (hroom : items.length + s.threads.length < UInt64.size) : Sound look items s' := by
  have hpast := h.past
  cases hturn with
  | idle => exact h
  | take hk hlt =>
    have hnext := h.toNat_next hroom hk
    have hstopped : (s.threads.set k (.holding s.next.toNat)).count .stopped =
        s.threads.count .stopped := by
      simpa using count_set_of_some hk (.holding s.next.toNat) .stopped
    refine ⟨⟨h.length_eq, h.results⟩, fun i => ?_, by dsimp only; omega⟩
    -- the number that was next is held now
    have hheld : (s.threads.set k (.holding s.next.toNat)).count (.holding i) =
        s.threads.count (.holding i) + if s.next.toNat = i then 1 else 0 := by
      simpa using count_set_of_some hk (.holding s.next.toNat) (.holding i)
    have hgiven := h.given i
    dsimp only
    rw [hnext, hheld]
    split_ifs at hgiven ⊢ <;> omega
  | stop hk hend =>
    have hnext := h.toNat_next hroom hk
    have hstopped : (s.threads.set k .stopped).count .stopped =
        s.threads.count .stopped + 1 := by
      simpa using count_set_of_some hk .stopped .stopped
    refine ⟨⟨h.length_eq, h.results⟩, fun i => ?_, by dsimp only; omega⟩
    have hheld : (s.threads.set k .stopped).count (.holding i) = s.threads.count (.holding i) := by
      simpa using count_set_of_some hk .stopped (.holding i)
    have hgiven := h.given i
    dsimp only
    rw [hnext, hheld]
    split_ifs at hgiven ⊢ <;> omega
  | @visit i hk =>
    have hnoted := h.toNoted.visit i
    have hstopped : (s.threads.set k .ready).count .stopped = s.threads.count .stopped := by
      simpa using count_set_of_some hk .ready .stopped
    refine ⟨⟨hnoted.length_eq, hnoted.results⟩, fun j => ?_, hstopped.trans hpast⟩
    -- the number that was held is looked at now
    have hheld : (s.threads.set k .ready).count (.holding j) + (if i = j then 1 else 0) =
        s.threads.count (.holding j) := by
      simpa using count_set_of_some hk .ready (.holding j)
    refine Eq.trans ?_ (h.given j)
    simp only [Sweep.visit, List.count_cons, beq_iff_eq]
    omega

/-- **What a step keeps, any order of steps keeps.** -/
theorem Sound.run (h : Sound look items s) (hroom : items.length + s.threads.length < UInt64.size)
    (order : List Nat) : Sound look items (run look items s order) := by
  induction order using List.reverseRecOn with
  | nil => exact h
  | append_singleton order k ih =>
    rw [run_concat]
    refine (turn_step look items _ k).sound ih ?_
    rwa [length_threads_run]

/-! ## Every item once -/

namespace Sound

/-- Nothing is looked at twice, not even as long as threads are under way. -/
theorem looked_nodup (h : Sound look items s) : s.looked.Nodup := by
  refine List.nodup_iff_count.2 fun i => ?_
  have hgiven := h.given i
  split_ifs at hgiven <;> omega

theorem looked_lt (h : Sound look items s) (hi : i ∈ s.looked) : i < items.length := by
  have hgiven := h.given i
  have hpos := List.count_pos_iff.2 hi
  split_ifs at hgiven with hlt
  · exact hlt.2
  · omega

/-- A thread stops only when all numbers have been given out. -/
theorem le_next (h : Sound look items s) (hstopped : .stopped ∈ s.threads) :
    items.length ≤ s.next.toNat := by
  have hpast := h.past
  have hpos := List.count_pos_iff.2 hstopped
  omega

/-- **When the threads have stopped, every item was looked at once.** -/
theorem looked_perm (h : Sound look items s) (hthreads : s.threads ≠ [])
    (hdone : s.isDone = true) : s.looked.Perm (List.range items.length) := by
  have hstopped : ∀ p ∈ s.threads, p = .stopped := by simpa [isDone] using hdone
  obtain ⟨p, hp⟩ := List.exists_mem_of_ne_nil _ hthreads
  have hle := h.le_next (hstopped p hp ▸ hp)
  refine List.perm_iff_count.2 fun i => ?_
  have hheld : s.threads.count (.holding i) = 0 :=
    List.count_eq_zero.2 fun hi => by simpa using hstopped _ hi
  have hgiven := h.given i
  rw [hheld, Nat.add_zero] at hgiven
  rw [hgiven, List.count_range]
  exact if_congr ⟨And.right, fun hi => ⟨by omega, hi⟩⟩ rfl rfl

end Sound

/-- Every item was looked at once, and this is what was seen. -/
structure Complete (look : β → α) (items : List β) (s : Sweep α) : Prop where
  looked : s.looked.Perm (List.range items.length)
  all_eq : s.all = items.map look
  seen : s.seen.Perm (items.map look)

theorem Noted.complete (h : Noted look items s)
    (hlooked : s.looked.Perm (List.range items.length)) : Complete look items s := by
  have hresults := h.results_eq fun i hi => hlooked.mem_iff.2 (List.mem_range.2 hi)
  have hall : s.all = items.map look := by
    rw [all, hresults, List.filterMap_map]
    exact congrFun List.filterMap_eq_map items
  exact ⟨hlooked, hall, hall ▸ seen_perm_all (by rwa [h.length_eq])⟩

theorem foldl_visit (h : Noted look items s) (is : List Nat) :
    let s' := is.foldl (visit look items) s
    Noted look items s' ∧ s'.looked = is.reverse ++ s.looked ∧ s'.threads = s.threads := by
  induction is generalizing s with
  | nil => exact ⟨h, rfl, rfl⟩
  | cons i is ih =>
    obtain ⟨hnoted, hlooked, hthreads⟩ := ih (h.visit i)
    refine ⟨hnoted, ?_, hthreads⟩
    rw [List.foldl_cons, hlooked, List.reverse_cons, List.append_assoc]
    rfl

/-- **Without threads every item is looked at once**, too. -/
theorem complete_alone (look : β → α) (items : List β) :
    Complete look items (alone look items) := by
  obtain ⟨hnoted, hlooked, -⟩ :=
    foldl_visit (noted_start look items 0) (List.range items.length)
  refine hnoted.complete ?_
  rw [hlooked, start, List.append_nil]
  exact List.reverse_perm _

/-! ## Every thread stops -/

/-- The steps that a thread still takes when all numbers have been given out. -/
def cost : SweepPhase → Nat
  | .ready => 1
  | .holding _ => 2
  | .stopped => 0

/-- The steps that thread `k` may still take: two for each number that was not given out, besides
    those that it takes in any case. -/
def credit (items : List β) (s : Sweep α) (k : Nat) : Nat :=
  2 * (items.length - s.next.toNat) + s.threads[k]?.elim 0 cost

theorem credit_pos (items : List β) {p : SweepPhase} (hk : s.threads[k]? = some p) (hp : p ≠ .stopped) :
    0 < s.credit items k := by
  rw [credit, hk]
  cases p with
  | stopped => exact absurd rfl hp
  | ready | holding => simp [cost]

/-- A step that costs thread `j` credit gives none to the others. -/
theorem credit_moved {p q : SweepPhase} (hj : s.threads[j]? = some p)
    (hthreads : s'.threads = s.threads.set j q) (hnext : s.next.toNat ≤ s'.next.toNat)
    (hcost : 2 * (items.length - s'.next.toNat) + cost q <
      2 * (items.length - s.next.toNat) + cost p) (k : Nat) :
    s'.credit items k + (if j = k then 1 else 0) ≤ s.credit items k := by
  unfold credit
  rw [hthreads, getElem?_set_of_some hj]
  by_cases hjk : j = k
  · subst hjk
    simp only [if_true, hj, Option.elim_some]
    omega
  · simp only [if_neg hjk, if_neg (Ne.symm hjk)]
    omega

/-- **A thread that has not stopped uses up credit with each of its steps**, and the steps of
    others give it none. -/
theorem Turn.credit_le (hturn : Turn look items s j s') (h : Sound look items s)
    (hroom : items.length + s.threads.length < UInt64.size) {p : SweepPhase}
    (hk : s.threads[k]? = some p) (hp : p ≠ .stopped) :
    s'.credit items k + (if j = k then 1 else 0) ≤ s.credit items k := by
  cases hturn with
  | idle hj =>
    have hjk : j ≠ k := by
      rintro rfl
      rcases hj with hj | hj
      · cases hj.symm.trans hk
      · exact hp (Option.some.inj (hk.symm.trans hj))
    exact Nat.le_of_eq (congrArg _ (if_neg hjk))
  | take hj hlt =>
    have hnext := h.toNat_next hroom hj
    exact credit_moved hj rfl (by dsimp only; omega) (by simp only [cost]; omega) k
  | stop hj hle =>
    have hnext := h.toNat_next hroom hj
    exact credit_moved hj rfl (by dsimp only; omega) (by simp only [cost]; omega) k
  | visit hj =>
    refine credit_moved (q := .ready) hj ?_ ?_ ?_ k
    · rfl
    · exact Nat.le_refl _
    · simp [cost, Sweep.visit]

namespace Sound

variable (h : Sound look items s) (hroom : items.length + s.threads.length < UInt64.size)
include h hroom

theorem credit_run (hk : k < s.threads.length) (order : List Nat) :
    let s' := Sweep.run look items s order
    s'.threads[k]? = some .stopped ∨ s'.credit items k + order.count k ≤ s.credit items k := by
  intro s'
  induction order using List.reverseRecOn with
  | nil => exact Or.inr (Nat.le_refl _)
  | append_singleton order j ih =>
    have hturn := turn_step look items (Sweep.run look items s order) j
    simp only [s', run_concat]
    obtain ⟨p, hp⟩ := exists_phase_run look items hk order
    by_cases hstopped : p = .stopped
    · exact Or.inl (hturn.stopped (hstopped ▸ hp))
    · have hbefore := ih.resolve_left fun h => hstopped (Option.some.inj (hp.symm.trans h))
      have hlength := length_threads_run look items s order
      have hle := hturn.credit_le (h.run hroom order) (hlength ▸ hroom) hp hstopped
      refine Or.inr ?_
      rw [List.count_append, List.count_singleton, beq_eq_decide]
      simp only [decide_eq_true_eq]
      omega

/-- A thread that takes as many steps as it has credit stops, whatever the others do. -/
theorem stopped_of_credit (hk : k < s.threads.length)
    (hcredit : s.credit items k ≤ order.count k) :
    (Sweep.run look items s order).threads[k]? = some .stopped := by
  rcases h.credit_run hroom hk order with hstopped | hle
  · exact hstopped
  · obtain ⟨p, hp⟩ := exists_phase_run look items hk order
    by_cases hstopped : p = .stopped
    · exact hstopped ▸ hp
    · have hpos := credit_pos items hp hstopped
      omega

end Sound

/-! ## Sweeps in any order -/

theorem isDone_iff :
    s.isDone = true ↔ ∀ k < s.threads.length, s.threads[k]? = some .stopped := by
  simp only [isDone, List.all_eq_true, beq_iff_eq]
  constructor
  · intro h k hk
    rw [List.getElem?_eq_getElem hk, h _ (List.getElem_mem hk)]
  · intro h p hp
    obtain ⟨k, hk, rfl⟩ := List.getElem_of_mem hp
    exact Option.some.inj ((List.getElem?_eq_getElem hk).symm.trans (h k hk))

theorem getElem?_threads_run (hk : k ∉ order) :
    (run look items s order).threads[k]? = s.threads[k]? := by
  induction order using List.reverseRecOn with
  | nil => rfl
  | append_singleton order j ih =>
    rw [List.mem_append, List.mem_singleton, not_or] at hk
    rw [run_concat]
    exact ((turn_step look items _ j).getElem?_threads hk.2).trans (ih hk.1)

/-- Once one thread has stopped, the others need look no further than at the counter. -/
theorem Sound.credit_le_one (h : Sound look items s) (hstopped : .stopped ∈ s.threads)
    (hk : s.threads[k]? = some .ready ∨ s.threads[k]? = some .stopped) :
    s.credit items k ≤ 1 := by
  have hnext := h.le_next hstopped
  have hgiven : 2 * (items.length - s.next.toNat) = 0 := by omega
  rw [credit, hgiven]
  rcases hk with hk | hk <;> simp [hk, cost]

theorem isDone_alone (look : β → α) (items : List β) : (alone look items).isDone = true := by
  have hthreads := (foldl_visit (noted_start look items 0) (List.range items.length)).2.2
  rw [isDone, alone, hthreads]
  rfl

section
variable {threads : Nat}

theorem credit_start (hk : k < threads) :
    (start threads items.length : Sweep α).credit items k = 2 * items.length + 1 := by
  simp [credit, start, hk, cost]

theorem length_threads_start : (start threads n : Sweep α).threads.length = threads :=
  List.length_replicate

variable (hroom : items.length + threads < UInt64.size)
include hroom

theorem sound_run (look : β → α) (order : List Nat) :
    Sound look items (run look items (start threads items.length) order) :=
  (sound_start look items threads).run (length_threads_start (α := α) ▸ hroom) order

/-- **A thread stops after two steps for each item and one more**, whatever the others do. -/
theorem stopped_of_count (hk : k < threads) (hcount : 2 * items.length < order.count k) :
    (run look items (start threads items.length) order).threads[k]? = some .stopped := by
  refine (sound_start look items threads).stopped_of_credit ?_ ?_ ?_
  · rwa [length_threads_start]
  · rwa [length_threads_start]
  · rwa [credit_start hk]

theorem isDone_inOrder (hcount : ∀ k < threads, 2 * items.length < order.count k) :
    (inOrder look items threads order).isDone = true := by
  unfold inOrder
  split_ifs
  · exact isDone_alone look items
  · rw [isDone_iff, length_threads_run, length_threads_start]
    exact fun k hk => stopped_of_count hroom hk (hcount k hk)

theorem isDone_firstTakesAll (look : β → α) :
    (inOrder look items threads (firstTakesAll threads items.length)).isDone = true := by
  unfold inOrder
  split_ifs with hthreads
  · exact isDone_alone look items
  · let order := List.replicate (2 * items.length + 1) 0
    let s : Sweep α := run look items (start threads items.length) order
    have hsound : Sound look items s := sound_run hroom look order
    have hlength : s.threads.length = threads :=
      (length_threads_run look items _ order).trans length_threads_start
    have hfirst : s.threads[0]? = some .stopped :=
      stopped_of_count hroom (by omega) (by simp [order])
    have hcredit (k : Nat) (hk : k < threads) : s.credit items k ≤ 1 := by
      refine hsound.credit_le_one (List.mem_of_getElem? hfirst) ?_
      by_cases hk0 : k = 0
      · exact Or.inr (hk0 ▸ hfirst)
      · refine Or.inl ((getElem?_threads_run (by simp [order, hk0])).trans ?_)
        simp [start, hk]
    rw [firstTakesAll, run_append, isDone_iff, length_threads_run]
    intro k hk
    refine hsound.stopped_of_credit (hlength.symm ▸ hroom) hk ?_
    rw [List.count_range, if_pos (hlength ▸ hk)]
    exact hcredit k (hlength ▸ hk)

/-- **At any time no item was looked at twice.** -/
theorem once_inOrder (look : β → α) (order : List Nat) :
    let s := inOrder look items threads order
    s.looked.Nodup ∧ ∀ i ∈ s.looked, i < items.length := by
  unfold inOrder
  split_ifs
  · have hlooked := (complete_alone look items).looked
    exact ⟨hlooked.nodup_iff.2 List.nodup_range,
      fun i hi => List.mem_range.1 (hlooked.mem_iff.1 hi)⟩
  · have h := sound_run hroom look order
    exact ⟨h.looked_nodup, fun i hi => h.looked_lt hi⟩

/-- **Threads that have stopped leave what one would see**, in whichever order they went on. -/
theorem complete_inOrder (hdone : (inOrder look items threads order).isDone = true) :
    Complete look items (inOrder look items threads order) := by
  unfold inOrder at hdone ⊢
  split_ifs at hdone ⊢ with hthreads
  · exact complete_alone look items
  · have h := sound_run hroom look order
    refine h.toNoted.complete (h.looked_perm ?_ hdone)
    rw [← List.length_pos_iff, length_threads_run, length_threads_start]
    omega

end

end Sweep

end Rebuild
