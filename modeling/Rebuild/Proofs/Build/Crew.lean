/-
  Threads that share a schedule never get in one another's way and never wait for ever.

  * `Crew.Sound` ties what the threads do to the progress of the groups: a group is running
    exactly as long as one thread compiles it, and a thread sleeps or has left only while
    there is nothing to take.  `Crew.Step.sound` is the step, `Crew.Run.sound` the run;
  * `Crew.credit` falls with every move, so no run goes on for ever.

  `Crew.run_orderly` collects what holds after any moves.
-/
import Rebuild.Build.Crew
import Rebuild.Proofs.Build.Schedule
import Rebuild.Proofs.Containers

namespace Rebuild

namespace Crew

variable {c c' c'' : Crew} {moves : List Move} {m : Move} {g : Nat}

/-! ## Threads -/

section
variable {ts : List Thread} {i : Nat} {t u v : Thread}

theorem mem_set_of_some (h : ts[i]? = some t) (hu : u ≠ t) (v : Thread) :
    u ∈ ts.set i v ↔ u = v ∨ u ∈ ts := by
  simp only [List.mem_iff_getElem?, getElem?_set_of_some h]
  constructor
  · rintro ⟨x, hx⟩
    split_ifs at hx with hxi
    · exact Or.inl (Option.some.inj hx).symm
    · exact Or.inr ⟨x, hx⟩
  · rintro (rfl | ⟨x, hx⟩)
    · exact ⟨i, if_pos rfl⟩
    · have hxi : x ≠ i := fun hxi => hu (Option.some.inj (hx.symm.trans (hxi ▸ h)))
      exact ⟨x, (if_neg hxi).trans hx⟩

theorem wake_eq_compiling : t.wake = .compiling g ↔ t = .compiling g := by
  cases t <;> simp [Thread.wake]

theorem wake_eq_left : t.wake = .left ↔ t = .left := by
  cases t <;> simp [Thread.wake]

theorem wake_ne_asleep : t.wake ≠ .asleep := by
  cases t <;> simp [Thread.wake]

/-- No two threads compile one group. -/
def Distinct (ts : List Thread) : Prop :=
  ∀ i j g : Nat, ts[i]? = some (.compiling g) → ts[j]? = some (.compiling g) → i = j

theorem Distinct.set (h : Distinct ts) (hi : ts[i]? = some t)
    (hv : ∀ j g : Nat, v = .compiling g → ts[j]? ≠ some v) : Distinct (ts.set i v) := by
  intro j k x hj hk
  rw [getElem?_set_of_some hi] at hj hk
  split_ifs at hj hk with hji hki hki
  · rw [hji, hki]
  · exact absurd (hk.trans hj.symm) (hv k x (Option.some.inj hj))
  · exact absurd (hj.trans hk.symm) (hv j x (Option.some.inj hk))
  · exact h j k x hj hk

theorem Distinct.map_wake (h : Distinct ts) : Distinct (ts.map Thread.wake) := by
  intro j k x hj hk
  simp only [List.getElem?_map, Option.map_eq_some_iff, wake_eq_compiling, exists_eq_right]
    at hj hk
  exact h j k x hj hk

/-- A thread that is done with a group leaves no one who compiles it. -/
theorem Distinct.mem_map_wake (h : Distinct ts) (hi : ts[i]? = some (.compiling g)) (x : Nat) :
    .compiling x ∈ (ts.set i .awake).map Thread.wake ↔ x ≠ g ∧ .compiling x ∈ ts := by
  simp only [List.mem_map, wake_eq_compiling, exists_eq_right]
  constructor
  · intro hx
    obtain ⟨j, hj⟩ := List.mem_iff_getElem?.1 hx
    rw [getElem?_set_of_some hi] at hj
    split_ifs at hj with hji
    · simp at hj
    · refine ⟨?_, List.mem_of_getElem? hj⟩
      rintro rfl
      exact hji (h j i x hj hi)
  · rintro ⟨hxg, hx⟩
    exact (mem_set_of_some hi (by simpa using hxg) .awake).2 (Or.inr hx)

end

/-! ## Threads and groups -/

/-- What the threads do fits what the schedule says. -/
structure Sound (c : Crew) : Prop where
  schedule : c.schedule.Sound
  running : ∀ g, c.schedule.progress[g]? = some .running ↔ .compiling g ∈ c.threads
  distinct : Distinct c.threads
  asleep : .asleep ∈ c.threads → c.schedule.awake = false
  left : .left ∈ c.threads → c.schedule.isOver = true

theorem sound_start (needs : List (List Nat)) (threads : Nat) : Sound (start needs threads) := by
  have hts (t : Thread) (ht : t ∈ (start needs threads).threads) : t = .awake :=
    (List.mem_replicate.1 ht).2
  have hs := Schedule.sound_start needs
  refine ⟨hs, fun g => ⟨fun h => ?_, fun h => by simpa using hts _ h⟩, fun i j g h => ?_,
    fun h => by simpa using hts _ h, fun h => by simpa using hts _ h⟩
  · -- at first none is running
    have hrun := hs.running_eq
    rw [Schedule.start_running, eq_comm, List.count_eq_zero] at hrun
    exact absurd (List.mem_of_getElem? h) hrun
  · simpa using hts _ (List.mem_of_getElem? h)

theorem Step.sound (hstep : Step c m c') (h : Sound c) : Sound c' := by
  cases hstep with
  | @start s s' ts i g hi ht =>
    obtain ⟨hs, htaken⟩ := h.schedule.taken ht
    obtain ⟨hover, hawake, -⟩ := Schedule.take?_eq_some.1 ht
    have hmem (u : Thread) (hu : u ≠ .awake) := mem_set_of_some hi hu (.compiling g)
    have hnew : .compiling g ∉ ts := by
      intro hg
      have := (h.running g).2 hg
      rcases htaken.was_open with hw | hw <;> simp [this] at hw
    refine ⟨hs, fun x => ?_, h.distinct.set hi fun j x _ hj => hnew (List.mem_of_getElem? hj),
      fun hm => ?_, fun hm => ?_⟩
    · rw [htaken.running, h.running, hmem _ (by simp), Thread.compiling.injEq]
    · -- a thread that sleeps has seen that there is nothing to take
      have := h.asleep (((hmem _ (by simp)).1 hm).resolve_left (by simp))
      simp [hawake] at this
    · have := h.left (((hmem _ (by simp)).1 hm).resolve_left (by simp))
      simp [hover] at this
  | @finish s ts i g succeeded hi =>
    have hrun := (h.running g).2 (List.mem_of_getElem? hi)
    obtain ⟨hs, hfin⟩ := h.schedule.finished hrun succeeded
    refine ⟨hs, fun x => ?_, (h.distinct.set hi (by simp)).map_wake, fun hm => ?_, fun hm => ?_⟩
    · rw [hfin.running, h.running, h.distinct.mem_map_wake hi]
    · obtain ⟨u, -, hu⟩ := List.mem_map.1 hm
      exact absurd hu wake_ne_asleep
    · -- no thread has left as long as another one compiles
      obtain ⟨u, hu, hleft⟩ := List.mem_map.1 hm
      rw [wake_eq_left.1 hleft, mem_set_of_some hi (by simp)] at hu
      have hover := h.left (hu.resolve_left (by simp))
      have := h.schedule.isOver_iff.1 hover g (List.getElem?_eq_some_iff.1 hrun).1
      simp [hrun] at this
  | @sleep s ts i hi hs =>
    have hmem (u : Thread) (hu : u ≠ .awake) := mem_set_of_some hi hu .asleep
    refine ⟨h.schedule, fun x => ?_, h.distinct.set hi (by simp), fun _ => hs, fun hm => ?_⟩
    · rw [h.running, hmem _ (by simp)]
      simp
    · exact h.left (((hmem _ (by simp)).1 hm).resolve_left (by simp))
  | @leave s ts i hi hs =>
    have hmem (u : Thread) (hu : u ≠ .awake) := mem_set_of_some hi hu .left
    refine ⟨h.schedule, fun x => ?_, h.distinct.set hi (by simp), fun hm => ?_, fun _ => hs⟩
    · rw [h.running, hmem _ (by simp)]
      simp
    · exact h.asleep (((hmem _ (by simp)).1 hm).resolve_left (by simp))

theorem Run.sound (hrun : Run c moves c') (h : Sound c) : Sound c' := by
  induction hrun with
  | nil => exact h
  | snoc _ hstep ih => exact hstep.sound ih

/-! ## Every run ends -/

/-- The number of moves that a crew may still make, with all threads woken at each end of a
    group. -/
def credit (c : Crew) : Nat :=
  (2 * c.schedule.size - c.schedule.running - 2 * c.schedule.done) * (c.threads.length + 1) +
    c.threads.count .awake

theorem Step.size_eq (hstep : Step c m c') (h : Sound c) :
    c'.schedule.size = c.schedule.size ∧ c'.threads.length = c.threads.length := by
  cases hstep with
  | start hi ht => exact ⟨(h.schedule.taken ht).2.size, List.length_set⟩
  | finish succeeded hi =>
    have hrun := (h.running _).2 (List.mem_of_getElem? hi)
    exact ⟨(h.schedule.finished hrun succeeded).2.size,
      (List.length_map _).trans List.length_set⟩
  | sleep => exact ⟨rfl, List.length_set⟩
  | leave => exact ⟨rfl, List.length_set⟩

/-- A group on its way counts for more than all threads. -/
theorem credit_lt_of_lt {a a' k k' n : Nat} (ha : a' < a) (hk : k' ≤ n) :
    a' * (n + 1) + k' < a * (n + 1) + k := by
  have : (a' + 1) * (n + 1) ≤ a * (n + 1) := Nat.mul_le_mul_right _ ha
  rw [Nat.succ_mul] at this
  omega

/-- A thread that goes to sleep or leaves was awake. -/
theorem count_awake_set {ts : List Thread} {i : Nat} {v : Thread} (hi : ts[i]? = some .awake)
    (hv : v ≠ .awake) : (ts.set i v).count .awake + 1 = ts.count .awake := by
  simpa [hv] using count_set_of_some hi v .awake

/-- **Every move uses up credit**: a group starts once and ends once, and any other move leaves
    one thread fewer awake. -/
theorem Step.credit_lt (hstep : Step c m c') (h : Sound c) : c'.credit < c.credit := by
  obtain ⟨hsize, hlength⟩ := hstep.size_eq h
  have hle := (hstep.sound h).schedule.running_add_done_le
  have hawake : c'.threads.count .awake ≤ c.threads.length :=
    hlength ▸ List.count_le_length
  rw [hsize] at hle
  unfold credit
  rw [hsize, hlength]
  cases hstep with
  | @start s s' ts i g hi ht =>
    have htaken := (h.schedule.taken ht).2
    have hr := htaken.running_eq
    have hd := htaken.done_le
    refine credit_lt_of_lt ?_ hawake
    dsimp only at hle hr hd ⊢
    omega
  | @finish s ts i g succeeded hi =>
    have hrun := (h.running g).2 (List.mem_of_getElem? hi)
    have hfin := (h.schedule.finished hrun succeeded).2
    have hr := hfin.running_eq
    have hd := hfin.done_lt
    refine credit_lt_of_lt ?_ hawake
    dsimp only at hle hr hd ⊢
    omega
  | @sleep s ts i hi hs =>
    have := count_awake_set hi (v := .asleep) (by simp)
    dsimp only
    omega
  | @leave s ts i hi hs =>
    have := count_awake_set hi (v := .left) (by simp)
    dsimp only
    omega

theorem Run.size_eq (hrun : Run c moves c') (h : Sound c) :
    c'.schedule.size = c.schedule.size ∧ c'.threads.length = c.threads.length := by
  induction hrun with
  | nil => exact ⟨rfl, rfl⟩
  | snoc hrun hstep ih =>
    obtain ⟨hsize, hlength⟩ := hstep.size_eq (hrun.sound h)
    exact ⟨hsize.trans ih.1, hlength.trans ih.2⟩

theorem credit_start (needs : List (List Nat)) (threads : Nat) :
    (start needs threads).credit ≤ 2 * needs.length * (threads + 1) + threads := by
  have hle : 2 * needs.length - (Schedule.start needs).running - 2 * (Schedule.start needs).done ≤
      2 * needs.length := by omega
  have hcount : (List.replicate threads Thread.awake).count .awake ≤ threads := by simp
  simp only [credit, start, Schedule.start_size, List.length_replicate]
  exact Nat.add_le_add (Nat.mul_le_mul_right _ hle) hcount

theorem Run.length_add_credit_le (hrun : Run c moves c') (h : Sound c) :
    moves.length + c'.credit ≤ c.credit := by
  induction hrun with
  | nil => simp
  | snoc hrun hstep ih =>
    have := hstep.credit_lt (hrun.sound h)
    simp only [List.length_append, List.length_singleton]
    omega

/-! ## Every group starts once -/

/-- The groups that were started, in their order. -/
def started (moves : List Move) : List Nat :=
  moves.filterMap fun
    | .start g => some g
    | _ => none

theorem mem_started : g ∈ started moves ↔ .start g ∈ moves := by
  unfold started
  rw [List.mem_filterMap]
  constructor
  · rintro ⟨m, hm, hg⟩
    cases m <;> simp at hg
    exact hg ▸ hm
  · exact fun h => ⟨_, h, rfl⟩

theorem started_snoc_of_ne (hm : ∀ g, m ≠ .start g) :
    started (moves ++ [m]) = started moves := by
  cases m with
  | start g => exact absurd rfl (hm g)
  | finish | sleep | leave => simp [started]

/-- A group has started. -/
def HasStarted (c : Crew) (g : Nat) : Prop :=
  c.schedule.progress[g]? = some .running ∨ c.schedule.progress[g]? = some .done

theorem Step.hasStarted (hstep : Step c m c') (h : Sound c)
    (hg : HasStarted c g ∨ m = .start g) : HasStarted c' g := by
  cases hstep with
  | @start s s' ts i x hi ht =>
    have htaken := (h.schedule.taken ht).2
    rcases hg with (hr | hd) | hx
    · exact Or.inl ((htaken.running g).2 (Or.inr hr))
    · exact Or.inr (htaken.done g hd)
    · exact Or.inl ((htaken.running g).2 (Or.inl (Move.start.inj hx).symm))
  | @finish s ts i x succeeded hi =>
    have hfin := (h.schedule.finished ((h.running x).2 (List.mem_of_getElem? hi)) succeeded).2
    rcases hg with (hr | hd) | hx
    · by_cases hgx : g = x
      · exact Or.inr (hfin.done g (Or.inl hgx))
      · exact Or.inl ((hfin.running g).2 ⟨hgx, hr⟩)
    · exact Or.inr (hfin.done g (Or.inr hd))
    · cases hx
  | sleep => exact hg.resolve_right (by simp)
  | leave => exact hg.resolve_right (by simp)

theorem Run.started (hrun : Run c moves c') (h : Sound c) :
    (started moves).Nodup ∧ ∀ g ∈ started moves, HasStarted c' g := by
  induction hrun with
  | nil => exact ⟨List.nodup_nil, by simp [Crew.started]⟩
  | @snoc moves c' c'' m hrun hstep ih =>
    obtain ⟨hnd, hall⟩ := ih
    have hsound := hrun.sound h
    refine ⟨?_, fun g hg => hstep.hasStarted hsound ?_⟩
    · cases hstep with
      | @start s s' ts i g hi ht =>
        have hnew : g ∉ Crew.started moves := by
          intro hg
          have hopen := (hsound.schedule.taken ht).2.was_open
          rcases hall g hg with hr | hr <;> simp [hr] at hopen
        have hsnoc : Crew.started (moves ++ [.start g]) = Crew.started moves ++ [g] := by
          simp [Crew.started]
        rw [hsnoc, ← List.concat_eq_append]
        exact hnd.concat hnew
      | finish | sleep | leave => rwa [started_snoc_of_ne (by simp)]
    · rw [mem_started, List.mem_append, ← mem_started] at hg
      exact hg.imp (hall g) fun hm => (List.mem_singleton.1 hm).symm

/-! ## Someone can always go on -/

section
variable (h : Sound c) (hpos : c.threads ≠ [])
include h

/-- A group that is running is compiled by a thread, which can finish it. -/
theorem Sound.exists_finish (hg : c.schedule.progress[g]? = some .running) (succeeded : Bool) :
    ∃ c', Step c (.finish g succeeded) c' := by
  obtain ⟨i, hi⟩ := List.mem_iff_getElem?.1 ((h.running g).1 hg)
  exact ⟨_, .finish succeeded hi⟩

include hpos

/-- **As long as not all is done, a group is running or a thread can start one.** -/
theorem Sound.goes_on (hover : c.schedule.isOver = false) :
    (∃ g : Nat, c.schedule.progress[g]? = some .running) ∨ ∃ g c', Step c (.start g) c' := by
  by_cases hrun : c.schedule.running = 0
  · refine Or.inr ?_
    have hawake : c.schedule.awake = true := by simp [Schedule.awake, hrun]
    -- no thread compiles, sleeps or has left, so the first one is awake
    obtain ⟨t, ts, hts⟩ := List.exists_cons_of_ne_nil hpos
    have ht : t ∈ c.threads := hts ▸ List.mem_cons_self
    have htawake : t = .awake := by
      cases t with
      | awake => rfl
      | asleep => simpa [hawake] using h.asleep ht
      | left => simpa [hover] using h.left ht
      | compiling g =>
        have := h.schedule.running_eq
        rw [hrun, eq_comm, List.count_eq_zero] at this
        exact absurd (List.mem_of_getElem? ((h.running g).2 ht)) this
    obtain ⟨g, s', hs⟩ := h.schedule.exists_take hover hawake
    exact ⟨g, _, .start (i := 0) (by simp [hts, htawake]) hs⟩
  · refine Or.inl ?_
    rw [h.schedule.running_eq, List.count_eq_zero, not_not] at hrun
    exact List.mem_iff_getElem?.1 hrun

/-- Threads that are stuck have left, and all groups are done. -/
theorem Sound.of_stuck (hstuck : Stuck c) :
    c.schedule.isOver = true ∧ ∀ t ∈ c.threads, t = .left := by
  have hover : c.schedule.isOver = true := by
    by_contra hover
    rcases h.goes_on hpos (Bool.eq_false_iff.2 hover) with ⟨g, hg⟩ | ⟨g, c', hstep⟩
    · obtain ⟨c', hstep⟩ := h.exists_finish hg true
      exact hstuck _ _ hstep
    · exact hstuck _ _ hstep
  refine ⟨hover, fun t ht => ?_⟩
  obtain ⟨i, hi⟩ := List.mem_iff_getElem?.1 ht
  cases t with
  | left => rfl
  | awake => exact absurd (Step.leave hi hover) (hstuck _ _)
  | compiling g => exact absurd (Step.finish true hi) (hstuck _ _)
  | asleep => simpa [Schedule.awake, hover] using h.asleep ht

end

section
variable {needs : List (List Nat)} {threads : Nat}

theorem Run.size_start (hrun : Run (start needs threads) moves c) :
    c.schedule.size = needs.length :=
  (hrun.size_eq (sound_start needs threads)).1.trans (Schedule.start_size needs)

theorem Run.threads_ne_nil (hrun : Run (start needs threads) moves c) (hthreads : 0 < threads) :
    c.threads ≠ [] := by
  rw [← List.length_pos_iff, (hrun.size_eq (sound_start needs threads)).2]
  simpa [start] using hthreads

/-- **A run that cannot go on has got all groups done.** -/
theorem Run.of_stuck (hrun : Run (start needs threads) moves c) (hthreads : 0 < threads)
    (hstuck : Stuck c) : (∀ g < needs.length, c.schedule.progress[g]? = some .done) ∧
      ∀ t ∈ c.threads, t = .left := by
  have hsound := hrun.sound (sound_start needs threads)
  obtain ⟨hover, hleft⟩ := hsound.of_stuck (hrun.threads_ne_nil hthreads) hstuck
  exact ⟨hrun.size_start ▸ hsound.schedule.isOver_iff.1 hover, hleft⟩

end

/-! ## All runs -/

/-- What holds of a crew of so many threads after some moves. -/
structure Orderly (needs : List (List Nat)) (threads : Nat) (moves : List Move) (c : Crew) :
    Prop where
  size : c.schedule.size = needs.length
  /-- Each group is started at most once. -/
  started_nodup : (started moves).Nodup
  started_le : (started moves).length ≤ needs.length
  /-- The ready groups are those in that state, each once. -/
  ready_nodup : c.schedule.ready.Nodup
  mem_ready : ∀ g, g ∈ c.schedule.ready ↔ c.schedule.progress[g]? = some .ready
  done_eq : c.schedule.done = c.schedule.progress.count .done
  running_eq : c.schedule.running = c.schedule.progress.count .running
  /-- A thread that goes for a group finds one. -/
  offer_ne_nil : c.schedule.isOver = false → c.schedule.awake = true → c.schedule.offer.ready ≠ []
  /-- As long as not all is done, a group is running, which its thread can finish whatever
      comes of it, or a thread can start one. -/
  goes_on : c.schedule.done < needs.length →
    (∃ g : Nat, c.schedule.progress[g]? = some .running ∧
        ∀ succeeded, ∃ c', Step c (.finish g succeeded) c') ∨
      ∃ g c', Step c (.start g) c'
  /-- No run goes on for ever. -/
  length_le : moves.length ≤ 2 * needs.length * (threads + 1) + threads
  /-- When no thread can go on, all groups are done and all threads have left. -/
  ends : Stuck c → (∀ g < needs.length, c.schedule.progress[g]? = some .done) ∧
    ∀ t ∈ c.threads, t = .left

/-- **Threads that share a schedule start each group at most once, keep the ready groups and
    the counts right, and come to an end with all groups done**, whatever the groups need, in
    whichever order the threads go on and whatever comes of the groups. -/
theorem run_orderly {needs : List (List Nat)} {threads : Nat} (hthreads : 0 < threads)
    (hrun : Run (start needs threads) moves c) : Orderly needs threads moves c := by
  have hsound₀ := sound_start needs threads
  have hsound := hrun.sound hsound₀
  have hsize := hrun.size_start
  obtain ⟨hnd, hstarted⟩ := hrun.started hsound₀
  refine ⟨hsize, hnd, length_le_of_nodup_lt hnd fun g hg => ?_, hsound.schedule.ready_nodup,
    hsound.schedule.mem_ready, hsound.schedule.done_eq, hsound.schedule.running_eq,
    hsound.schedule.offer_ne_nil, fun hdone => ?_, ?_, hrun.of_stuck hthreads⟩
  · -- a group that has started is one of the groups
    rw [← hsize]
    rcases hstarted g hg with h | h <;> exact (List.getElem?_eq_some_iff.1 h).1
  · have hover : c.schedule.isOver = false := by
      rw [Schedule.isOver, hsize]
      exact beq_eq_false_iff_ne.2 (Nat.ne_of_lt hdone)
    rcases hsound.goes_on (hrun.threads_ne_nil hthreads) hover with ⟨g, hg⟩ | hstart
    · exact Or.inl ⟨g, hg, hsound.exists_finish hg⟩
    · exact Or.inr hstart
  · have := hrun.length_add_credit_le hsound₀
    have hcredit := credit_start needs threads
    omega

/-- Two groups that need each other: one of two threads lets the first go, the other sleeps
    until that is done and takes the second. -/
theorem run_orderly_mutual : 0 < 2 ∧ ∃ c,
    Run (start [[1], [0]] 2)
      [.start 0, .sleep, .finish 0 true, .start 1, .sleep, .finish 1 true, .leave, .leave] c ∧
    Orderly [[1], [0]] 2
      [.start 0, .sleep, .finish 0 true, .start 1, .sleep, .finish 1 true, .leave, .leave] c := by
  have hfirst : Run (start [[1], [0]] 2) [.start 0, .sleep, .finish 0 true] _ :=
    ((Run.nil.snoc (.start (i := 0) rfl rfl)).snoc (.sleep (i := 1) rfl rfl)).snoc
      (.finish (i := 0) true rfl)
  have hsecond := ((hfirst.snoc (.start (i := 1) rfl rfl)).snoc (.sleep (i := 0) rfl rfl)).snoc
    (.finish (i := 1) true rfl)
  have hrun := (hsecond.snoc (.leave (i := 0) rfl rfl)).snoc (.leave (i := 1) rfl rfl)
  exact ⟨by decide, _, hrun, run_orderly (by decide) hrun⟩

/-! ## A thread on its own -/

theorem Run.cons (hstep : Step c m c') (hrun : Run c' moves c'') : Run c (m :: moves) c'' := by
  induction hrun with
  | nil => exact Run.nil.snoc hstep
  | snoc _ hlast ih => exact ih.snoc hlast

/-- What a thread does on its own is a run of a crew of one. -/
theorem exists_run_runFrom {σ : Type} (compile : σ → Nat → Bool × σ) (bound : Nat) (state : σ)
    (s : Schedule) : ∃ moves,
      Run ⟨s, [.awake]⟩ moves ⟨(s.runFrom compile bound state).2, [.awake]⟩ := by
  induction bound generalizing state s with
  | zero => exact ⟨[], .nil⟩
  | succ bound ih =>
    rw [Schedule.runFrom]
    cases ht : s.take? with
    | none => exact ⟨[], .nil⟩
    | some taken =>
      obtain ⟨g, s'⟩ := taken
      rcases hc : compile state g with ⟨succeeded, state'⟩
      simp only [hc]
      obtain ⟨moves, hrun⟩ := ih state' (s'.finish g succeeded)
      have hstart : Step ⟨s, [.awake]⟩ (.start g) ⟨s', [.compiling g]⟩ := .start (i := 0) rfl ht
      have hfinish : Step ⟨s', [.compiling g]⟩ (.finish g succeeded)
          ⟨s'.finish g succeeded, [.awake]⟩ := .finish (i := 0) succeeded rfl
      exact ⟨_, (hrun.cons hfinish).cons hstart⟩

end Crew

end Rebuild
