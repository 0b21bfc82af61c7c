/-
  Everybody comes to an end.

  * `Visit.rank`: with each step a visit is closer to its result, unless it falls asleep;
  * `Visit.goes_on`: who is not asleep can go on;
  * `Traffic.run_goes_on`: as long as there is a visit without a result, somebody can go on.
-/
import Rebuild.Proofs.Worker.Queue
import Rebuild.Proofs.Worker.Staff

namespace Rebuild

/-- A call may end. -/
theorem WorkerLink.exists_call (l : WorkerLink) (item : Item) (limit : Int) :
    ∃ x r after, l.call item limit x = some (r, after) := by
  refine ⟨⟨.eof, [], true, []⟩, ?_⟩
  unfold call
  split_ifs
  · exact ⟨_, _, rfl⟩
  · exact ⟨_, _, rfl⟩

namespace Visit

variable {p p' : Pool} {v v' : Visit} {e : Event}

/-- The number of steps that a visit has at most before it, apart from falling asleep. -/
def rank (v : Visit) : Nat :=
  match v.phase with
  | .arrived _ => 13
  | .registered _ => 12
  | .queued _ _ => 11
  | .dispatched _ _ => 10
  | .retiring _ _ _ _ => 9
  | .launching _ _ => 8
  | .ready _ _ => 7
  | .calling _ _ _ =>
    match v.stance with
    | .calling _ => 5
    | _ => 6
  | .settling _ _ => 4
  | .burying _ _ _ _ => 3
  | .replacing _ _ _ => 2
  | .freeing _ _ => 1
  | .done _ => 0

theorem rank_le (v : Visit) : v.rank ≤ 13 := by
  obtain ⟨id, ph, stance⟩ := v
  cases ph with
  | calling => cases stance <;> exact of_decide_eq_true rfl
  | _ => exact of_decide_eq_true rfl

theorem rank_told {w : Visit} (h : Traffic.Told v w) : w.rank = v.rank := by
  rcases h with rfl | rfl
  · rfl
  · obtain ⟨id, ph, stance⟩ := v
    cases stance <;> rfl

theorem Change.rank_lt (h : Change p v e p' v') (hv : v'.stance ≠ .asleep) :
    v'.rank < v.rank := by
  cases h with
  | awaitPlace | awaitSlot => exact absurd rfl hv
  | _ => exact of_decide_eq_true rfl

/-- Who is not asleep can go on. -/
theorem goes_on (hv : v.Proper) (hr : p.Relies v) (hs : v.stance ≠ .asleep)
    (hd : ∀ r, v.phase ≠ .done r) : ∃ e p' v', v.Step p e p' v' := by
  obtain ⟨id, ph, stance⟩ := v
  cases stance with
  | asleep => exact absurd rfl hs
  | calling l =>
    obtain ⟨item, s, k, hph⟩ := hv.calling l rfl
    obtain rfl : ph = .calling item s k := hph
    obtain ⟨x, r, after, hcall⟩ := l.exists_call item 0
    exact ⟨_, _, _, .reply 0 x hcall⟩
  | awake =>
    cases ph with
    | arrived item => exact ⟨_, _, _, .register rfl⟩
    | registered item =>
      cases hp : p.admit? item with
      | none => exact ⟨_, _, _, .awaitPlace hp⟩
      | some next =>
        obtain ⟨p', next⟩ := next
        rcases admit?_change id hp with ⟨t, rfl, -⟩ | ⟨r, rfl, -⟩
        · exact ⟨_, _, _, .accept hp⟩
        · exact ⟨_, _, _, .sendAway hp⟩
    | queued item t =>
      cases hp : p.dispatch? item t with
      | none => exact ⟨_, _, _, .awaitSlot hp⟩
      | some next =>
        obtain ⟨p', next⟩ := next
        rcases dispatch?_change id hp with ⟨s, rfl, -⟩ | ⟨r, rfl, -⟩
        · exact ⟨_, _, _, .dispatch hp⟩
        · exact ⟨_, _, _, .withdraw hp⟩
    | dispatched item s => exact ⟨_, _, _, .prepare rfl⟩
    | retiring item s k recycled => exact ⟨_, _, _, .retire rfl⟩
    | launching item s => exact ⟨_, _, _, .launchFailed []⟩
    | ready item s => exact ⟨_, _, _, .fetch rfl⟩
    | calling item s k =>
      obtain ⟨l, hfits, -⟩ := hr
      cases hb : l.broken with
      | false => exact ⟨_, _, _, .send hfits.link hb⟩
      | true => exact ⟨_, _, _, .keep hfits.link hb⟩
    | settling s r => exact ⟨_, _, _, .settle rfl⟩
    | burying s k respawn r => exact ⟨_, _, _, .bury rfl⟩
    | replacing s fp r => exact ⟨_, _, _, .replaceFailed⟩
    | freeing s r => exact ⟨_, _, _, .free rfl⟩
    | done r => exact absurd rfl (hd r)

end Visit

namespace Traffic

variable {c c' : Traffic} {m : Move} {moves : List Move} {settings : PoolSettings}
  {processors : Nat}

/-- Who is not asleep can go on, whatever others do. -/
theorem Run.visit_goes_on (h : Run (start settings processors) moves c) {i : Nat} {v : Visit}
    (hi : c.visits[i]? = some v) (hs : v.stance ≠ .asleep) (hd : ∀ r, v.phase ≠ .done r) :
    ∃ e c', Step c (.visit i e) c' := by
  have hv := List.mem_of_getElem? hi
  obtain ⟨e, p', v', hstep⟩ := Visit.goes_on (h.sound.proper v hv) (h.staff.relies v hv) hs hd
  exact ⟨e, _, .visit hi hstep⟩

/-- **As long as somebody has no result, somebody can go on.** -/
theorem run_goes_on (h : Run (start settings processors) moves c)
    (hcap : settings.workers processors + settings.queueCapacity.toNat < 2 ^ 64)
    {v : Visit} (hv : v ∈ c.visits) (hd : ∀ r, v.phase ≠ .done r) :
    ∃ m c', Step c m c' ∧ (m = .tell ∨ ∃ i e, m = .visit i e) := by
  have hs := h.sound
  by_contra hstuck
  -- nobody is awake, and there are no news
  have hasleep (w : Visit) (hw : w ∈ c.visits) (hwd : ∀ r, w.phase ≠ .done r) :
      w.stance = .asleep := by
    by_contra hw'
    obtain ⟨i, hi⟩ := List.mem_iff_getElem?.1 hw
    obtain ⟨e, c', hstep⟩ := h.visit_goes_on hi hw' hwd
    exact hstuck ⟨_, c', hstep, Or.inr ⟨i, e, rfl⟩⟩
  have htold : c.untold = 0 := by
    by_contra hn
    obtain ⟨n, hn⟩ := Nat.exists_eq_succ_of_ne_zero hn
    exact hstuck ⟨_, _, .tell hn, Or.inl rfl⟩
  have hholds (w : Visit) (hw : w ∈ c.visits) (hwd : ∀ r, w.phase ≠ .done r) :
      c.pool.Holds w.phase :=
    (h.attentive w hw (hasleep w hw hwd)).resolve_left (· htold)
  -- so nobody has a slot
  have hnoslot (w : Visit) (hw : w ∈ c.visits) : w.phase.slot? = none := by
    by_cases hwd : ∃ r, w.phase = .done r
    · obtain ⟨r, hwd⟩ := hwd
      rw [hwd]
      rfl
    · exact (hholds w hw fun r hr => hwd ⟨r, hr⟩).slot?_eq_none
  have hidle : c.pool.Idle 0 := by
    have hlt : 0 < c.pool.slots.length := by
      rw [h.keeps.slots]
      simpa [start, Pool.make] using settings.workers_pos processors
    have hfree : ¬ c.pool.Busy 0 := by
      rw [hs.slots.used_iff]
      rintro ⟨i, w, hi, hw⟩
      simp [hnoslot w (List.mem_of_getElem? hi)] at hw
    simpa [Pool.Idle, Pool.Busy, Pool.busy?, List.getElem?_eq_getElem hlt] using hfree
  -- nor a ticket, as the first in the queue could take the slot
  have hnoticket (w : Visit) (hw : w ∈ c.visits) : w.phase.ticket? = none := by
    by_contra hsome
    obtain ⟨t, ht⟩ := Option.ne_none_iff_exists'.1 hsome
    obtain ⟨i, hi⟩ := List.mem_iff_getElem?.1 hw
    have hmem : t ∈ c.pool.waiting := hs.tickets.used_of hi ht
    obtain ⟨u, rest, hwaiting⟩ := List.exists_cons_of_ne_nil (List.ne_nil_of_mem hmem)
    obtain ⟨j, x, hj, hx⟩ := (hs.tickets.used_iff u).1 (by simp [hwaiting])
    obtain ⟨item, hph⟩ := Phase.ticket?_eq_some_iff.1 hx
    have hh := hholds x (List.mem_of_getElem? hj) (by simp [hph])
    rw [hph, Pool.holds_queued_iff, hwaiting] at hh
    rcases hh.2 with hne | hbusy
    · exact hne rfl
    · exact hbusy 0 hidle
  -- so nobody is admitted, and who waits for admission need not wait
  have hzero : c.pool.admitted = 0 := by
    rw [hs.admitted, List.countP_eq_zero]
    intro w hw
    simp [Phase.isAdmitted, hnoslot w hw, hnoticket w hw]
  have hh := hholds v hv hd
  cases hph : v.phase with
  | registered item =>
    rw [hph, Pool.holds_registered_iff, hzero] at hh
    exact hh.2.2 (h.limit_pos hcap)
  | queued item t => simpa [hph, Phase.ticket?] using hnoticket v hv
  | _ =>
    rw [hph] at hh
    exact hh

end Traffic

end Rebuild
