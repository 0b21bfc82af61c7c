/-
  What a pool notes fits those who use it.

  `Pool.Sound` ties a pool to its visits: each busy slot, each ticket in the queue and each
  note of an item on its way is that of one visit, and the counts are those of the visits.
  `Sound.change` is the step of a visit, `Traffic.Run.sound` the run.

  `Traffic.run_exact` collects what holds after any moves.
-/
import Rebuild.Proofs.Worker.Change

namespace Rebuild

/-! ## What a phase stands for -/

namespace Phase

/-- The number of the item. -/
def id : Phase → UInt64
  | .arrived item | .registered item | .queued item _ | .dispatched item _ | .retiring item _ _ _
  | .launching item _ | .ready item _ | .calling item _ _ => item.id
  | .settling _ r | .burying _ _ _ r | .replacing _ _ r | .freeing _ r | .done r => r.id

/-- The slot that the visit occupies. -/
def slot? : Phase → Option Nat
  | .dispatched _ s | .retiring _ s _ _ | .launching _ s | .ready _ s | .calling _ s _
  | .settling s _ | .burying s _ _ _ | .replacing s _ _ | .freeing s _ => some s
  | _ => none

/-- The ticket with which the visit waits for a slot. -/
def ticket? : Phase → Option Nat
  | .queued _ ticket => some ticket
  | _ => none

/-- The visit is admitted, and has not given its place back. -/
def isAdmitted (ph : Phase) : Bool := ph.ticket?.isSome || ph.slot?.isSome

/-- What is noted of an item on its way: its number, and its slot once it has one.  The note
    goes when the item has its result, before the slot is given back. -/
def note? : Phase → Option (UInt64 × Option Nat)
  | .registered item | .queued item _ => some (item.id, none)
  | .dispatched item s | .retiring item s _ _ | .launching item s | .ready item s
  | .calling item s _ => some (item.id, some s)
  | .settling s r => some (r.id, some s)
  | _ => none

/-- The result, once it is counted. -/
def counted? : Phase → Option WorkResult
  | .burying _ _ _ r | .replacing _ _ r | .freeing _ r | .done r => some r
  | _ => none

theorem ticket?_eq_some_iff {ph : Phase} {t : Nat} :
    ph.ticket? = some t ↔ ∃ item, ph = .queued item t := by
  cases ph <;> simp [ticket?]

/-- A slot is noted of an item as long as its result is not counted. -/
theorem note?_eq_some_iff {ph : Phase} {x : UInt64} {s : Nat} :
    ph.note? = some (x, some s) ↔ ph.id = x ∧ ph.slot? = some s ∧ ph.counted? = none := by
  cases ph <;> simp [note?, id, slot?, counted?]

end Phase

/-- The ways in which results are counted. -/
inductive Tally
  | succeeded
  | failed
  | skipped
  | rejected
deriving DecidableEq, Repr

/-- How a result is counted. -/
def WorkResult.tally (r : WorkResult) : Tally :=
  match r.outcome with
  | .answered _ => .succeeded
  | .failed f => if f.kind = .rejected then .rejected else .failed
  | .skipped => .skipped

/-- The number of results counted in a way. -/
def PoolStats.of (s : PoolStats) : Tally → Nat
  | .succeeded => s.succeeded
  | .failed => s.failed
  | .skipped => s.skipped
  | .rejected => s.rejected

/-- How the result of a phase was counted, once it was. -/
def Phase.tally? (ph : Phase) : Option Tally := ph.counted?.map WorkResult.tally

/-! ## Slots -/

namespace Pool

variable (p : Pool) (i s : Nat)

@[simp] theorem busy?_count (f : PoolStats → PoolStats) : (p.count f).busy? s = p.busy? s := rfl

@[simp] theorem busy?_forget (id : UInt64) : (p.forget id).busy? s = p.busy? s := rfl

@[simp] theorem busy?_updateLink (f : WorkerLink → WorkerLink) :
    (p.updateLink i f).busy? s = p.busy? s := rfl

theorem busy?_updateSlot (f : Slot → Slot) : (p.updateSlot i f).busy? s =
    if i = s then p.slots[s]?.map fun x => (f x).busy else p.busy? s := by
  simp only [busy?, updateSlot, List.getElem?_modify]
  split_ifs <;> simp [Function.comp_def]

@[simp] theorem busy?_setLink (link : Option Nat) :
    (p.updateSlot i fun x => { x with link }).busy? s = p.busy? s := by
  rw [busy?_updateSlot]
  simp [busy?]

@[simp] theorem busy?_place (process : Nat) (fingerprint : Text) :
    (p.place i process fingerprint).busy? s = p.busy? s :=
  busy?_setLink _ i s _

theorem busy?_setBusy (busy : Bool) : (p.updateSlot i fun x => { x with busy }).busy? s =
    if i = s then (p.busy? s).map fun _ => busy else p.busy? s := by
  rw [busy?_updateSlot]
  simp [busy?, Function.comp_def]

end Pool

namespace Visit.Change

variable {p p' : Pool} {v v' : Visit} {e : Event}

/-- A visit keeps its slot, takes an idle one, or gives its own back. -/
theorem slots (h : Change p v e p' v') :
    (v'.phase.slot? = v.phase.slot? ∧ ∀ s, p'.Busy s ↔ p.Busy s) ∨
    (∃ s, v.phase.slot? = none ∧ v'.phase.slot? = some s ∧ p.Idle s ∧
      ∀ x, p'.Busy x ↔ x = s ∨ p.Busy x) ∨
    ∃ s, v.phase.slot? = some s ∧ v'.phase.slot? = none ∧ ∀ x, p'.Busy x ↔ x ≠ s ∧ p.Busy x := by
  cases h with
  | @dispatch _ _ _ slot _ _ hslot =>
    have hidle := Pool.idle_of_pickSlot? hslot
    refine Or.inr (Or.inl ⟨slot, rfl, rfl, hidle, fun x => ?_⟩)
    change (p.updateSlot slot fun s => { s with busy := true }).busy? x = some true ↔ _
    rw [Pool.busy?_setBusy]
    split_ifs with hx
    · subst hx
      simp [show p.busy? slot = some false from hidle]
    · simp [Ne.symm hx, Pool.Busy]
  | @free _ slot =>
    refine Or.inr (Or.inr ⟨slot, rfl, rfl, fun x => ?_⟩)
    change (p.updateSlot slot fun s => { s with busy := false }).busy? x = some true ↔ _
    rw [Pool.busy?_setBusy]
    split_ifs with hx
    · simp [hx]
    · simp [Ne.symm hx, Pool.Busy]
  | register | accept | withdraw => exact Or.inl ⟨rfl, fun _ => Iff.rfl⟩
  | _ => exact Or.inl ⟨rfl, fun s => by simp [Pool.Busy]⟩

/-- What the pool notes of the item of a visit. -/
theorem notes (h : Change p v e p' v') :
    (v'.phase.note? = v.phase.note? ∧ p'.inFlight = p.inFlight) ∨
    (∃ id, v.phase.note? = none ∧ v'.phase.note? = some (id, none) ∧ id ∉ p.inFlight ∧
      p'.inFlight = p.inFlight.insert id none) ∨
    (∃ id s, v.phase.note? = some (id, none) ∧ v'.phase.note? = some (id, some s) ∧
      p'.inFlight = p.inFlight.insert id (some s)) ∨
    ∃ id s, v.phase.note? = some (id, s) ∧ v'.phase.note? = none ∧
      p'.inFlight = p.inFlight.erase id := by
  cases h with
  | @register _ item _ _ hin => exact Or.inr (Or.inl ⟨item.id, rfl, rfl, hin, rfl⟩)
  | @dispatch _ item _ slot => exact Or.inr (Or.inr (Or.inl ⟨item.id, slot, rfl, rfl, rfl⟩))
  | @cancelAtDoor _ item | @closeAtDoor _ item | @withdraw _ item =>
    exact Or.inr (Or.inr (Or.inr ⟨item.id, none, rfl, rfl, rfl⟩))
  | @settle _ slot r | @loseLast _ slot _ _ r | @lose _ slot _ _ r =>
    exact Or.inr (Or.inr (Or.inr ⟨r.id, some slot, rfl, rfl, by rw [← blame_id p r]; rfl⟩))
  | @reply _ item slot _ _ _ r hcall =>
    exact Or.inl ⟨by simp only [Phase.note?, hcall.id_eq], rfl⟩
  | _ => exact Or.inl ⟨rfl, rfl⟩

/-- A visit keeps its ticket, draws the next one, or leaves the queue. -/
theorem tickets (h : Change p v e p' v') :
    (v'.phase.ticket? = v.phase.ticket? ∧ p'.waiting = p.waiting ∧
      p'.nextTicket = p.nextTicket) ∨
    (v.phase.ticket? = none ∧ v'.phase.ticket? = some p.nextTicket ∧
      p'.waiting = p.waiting ++ [p.nextTicket] ∧ p'.nextTicket = p.nextTicket + 1) ∨
    ∃ t, v.phase.ticket? = some t ∧ v'.phase.ticket? = none ∧ p'.waiting = p.waiting.erase t ∧
      p'.nextTicket = p.nextTicket := by
  cases h with
  | accept => exact Or.inr (Or.inl ⟨rfl, rfl, rfl, rfl⟩)
  | @withdraw _ _ t | @dispatch _ _ t => exact Or.inr (Or.inr ⟨t, rfl, rfl, rfl, rfl⟩)
  | _ => exact Or.inl ⟨rfl, rfl, rfl⟩

/-- A visit keeps its place, is admitted, or gives its place back. -/
theorem places (h : Change p v e p' v') :
    (v'.phase.isAdmitted = v.phase.isAdmitted ∧ p'.admitted = p.admitted) ∨
    (v.phase.isAdmitted = false ∧ v'.phase.isAdmitted = true ∧ p'.admitted = p.admitted + 1) ∨
    (v.phase.isAdmitted = true ∧ v'.phase.isAdmitted = false ∧ p'.admitted = p.admitted - 1) := by
  cases h with
  | accept => exact Or.inr (Or.inl ⟨rfl, rfl, rfl⟩)
  | withdraw | free => exact Or.inr (Or.inr ⟨rfl, rfl, rfl⟩)
  | _ => exact Or.inl ⟨rfl, rfl⟩

/-- A visit stays with the number of its item. -/
theorem id_eq (h : Change p v e p' v') : v'.id = v.id ∧ v'.phase.id = v.phase.id := by
  cases h with
  | reply hcall => exact ⟨rfl, hcall.id_eq⟩
  | settle | loseLast | lose => exact ⟨rfl, blame_id p _⟩
  | _ => exact ⟨rfl, rfl⟩

/-- A visit neither cancels nor closes the pool, and adds no slots. -/
theorem frame (h : Change p v e p' v') : p'.cancelled = p.cancelled ∧ p'.closing = p.closing ∧
    p'.settings = p.settings ∧ p'.slots.length = p.slots.length := by
  cases h <;> simp [Pool.count, Pool.forget, Pool.updateLink, Pool.updateSlot, Pool.place]

theorem ne_done (h : Change p v e p' v') (r : WorkResult) : v.phase ≠ .done r := by
  cases h <;> simp

end Visit.Change

/-! ## Results -/

/-- The visit stays with its item, and waits and calls only where it may. -/
structure Visit.Proper (v : Visit) : Prop where
  id_eq : v.phase.id = v.id
  /-- What is to be settled came from a worker, or there was none. -/
  result : ∀ s r, v.phase = .settling s r → r.IsAnswer ∨ r.IsLoss
  asleep : v.stance = .asleep → (∃ item, v.phase = .registered item) ∨
    ∃ item ticket, v.phase = .queued item ticket
  calling : ∀ l, v.stance = .calling l → ∃ item s k, v.phase = .calling item s k

namespace Visit

variable {p p' : Pool} {v v' : Visit} {e : Event}

theorem unprepared_isLoss (item : Item) (s : Nat) (why : Text) {s' : Nat} {r : WorkResult}
    (h : Pool.unprepared item s why = .settling s' r) : r.IsLoss := by
  cases h
  exact Or.inl rfl

theorem Change.proper (h : Change p v e p' v') (hv : v.Proper) : v'.Proper := by
  obtain ⟨hid, hphase⟩ := h.id_eq
  refine ⟨hphase.trans (hv.id_eq.trans hid.symm), fun s r hs => ?_, fun hs => ?_, fun l hs => ?_⟩
  · cases h with
    | findCancelled | launchFailed | launchInVain | fetchNone =>
      exact Or.inr (unprepared_isLoss _ _ _ hs)
    | reply hcall =>
      cases hs
      cases hcall with
      | answered _ _ _ hr => exact Or.inl hr
      | lost _ hr => exact Or.inr hr
    | _ => cases hs
  · cases h with
    | awaitPlace => exact Or.inl ⟨_, rfl⟩
    | awaitSlot => exact Or.inr ⟨_, _, rfl⟩
    | _ => cases hs
  · cases h with
    | send | keep => exact ⟨_, _, _, rfl⟩
    | _ => cases hs

theorem wake_not_asleep (v : Visit) : v.wake.stance ≠ .asleep := by
  cases hs : v.stance <;> simp [Visit.wake, Stance.wake, hs]

theorem Proper.wake (hv : v.Proper) : v.wake.Proper := by
  refine ⟨hv.id_eq, hv.result, fun h => absurd h v.wake_not_asleep, fun l h => hv.calling l ?_⟩
  cases hs : v.stance <;> simp_all [Visit.wake, Stance.wake]

/-- A result that is settled is counted as it is. -/
theorem of_tallied {r : WorkResult} (hr : r.IsAnswer ∨ r.IsLoss) (s : PoolStats) (t : Tally) :
    ((p.blame r).tallied s).of t = s.of t + if (p.blame r).tally = t then 1 else 0 := by
  have hfailed {id : UInt64} {f : Failure} (hk : f.kind ≠ .rejected) :
      ((⟨id, .failed f⟩ : WorkResult).tallied s).of t =
        s.of t + if (⟨id, .failed f⟩ : WorkResult).tally = t then 1 else 0 := by
    have : (⟨id, .failed f⟩ : WorkResult).tally = .failed := if_neg hk
    rw [this]
    cases t <;> rfl
  rcases blame_cases (p := p) hr with ⟨hb, -⟩ | ⟨-, message, hb⟩ <;> rw [hb]
  · obtain ⟨id, outcome⟩ := r
    cases outcome with
    | answered value => cases t <;> rfl
    | skipped => rcases hr with hr | hr <;> cases hr
    | failed f =>
      refine hfailed fun hk => ?_
      rcases hr with hr | hr | hr <;> cases hk.symm.trans hr
  · exact hfailed nofun

/-- Each result is counted once, and how it is says in which way. -/
theorem Change.tally (h : Change p v e p' v') (hv : v.Proper) (t : Tally) :
    p'.stats.of t + (if v.phase.tally? = some t then 1 else 0) =
      p.stats.of t + if v'.phase.tally? = some t then 1 else 0 := by
  cases h with
  | settle | loseLast | lose =>
    have hof := of_tallied (p := p) (hv.result _ _ rfl) p.stats t
    cases t <;> simpa [Phase.tally?, Phase.counted?, Pool.count, Pool.forget, Pool.updateSlot,
      PoolStats.of] using hof
  | refuse | closeAtDoor | cancelAtDoor | withdraw => cases t <;> rfl
  | accept | findUnfit => cases t <;> rfl
  | _ => rfl

end Visit

/-! ## The pool and its visits -/

/-- What a pool notes is what its visits make it note. -/
structure Pool.Sound (p : Pool) (vs : List Visit) : Prop where
  slots : Owned p.Busy (·.phase.slot?) vs
  notes : Owned (fun n : UInt64 × Option Nat => p.inFlight[n.1]? = some n.2) (·.phase.note?) vs
  tickets : Owned (· ∈ p.waiting) (·.phase.ticket?) vs
  ascending : p.waiting.Pairwise (· < ·)
  lt_next : ∀ t ∈ p.waiting, t < p.nextTicket
  admitted : p.admitted = vs.countP (·.phase.isAdmitted)
  tally : ∀ t, p.stats.of t = vs.countP fun v => v.phase.tally? = some t
  proper : ∀ v ∈ vs, v.Proper

namespace Pool.Sound

variable {p p' : Pool} {vs : List Visit} {v v' : Visit} {e : Visit.Event} {i : Nat}

theorem nodup_waiting (h : p.Sound vs) : p.waiting.Nodup :=
  h.ascending.imp fun hlt => Nat.ne_of_lt hlt

/-- Numbers are noted once. -/
theorem note_unique (h : p.Sound vs) {j : Nat} {w : Visit} {id : UInt64} {s s' : Option Nat}
    (hi : vs[i]? = some v) (hj : vs[j]? = some w) (hv : v.phase.note? = some (id, s))
    (hw : w.phase.note? = some (id, s')) : i = j := by
  have hs : p.inFlight[id]? = some s := h.notes.used_of hi hv
  have hs' : p.inFlight[id]? = some s' := h.notes.used_of hj hw
  obtain rfl : s = s' := Option.some.inj (hs.symm.trans hs')
  exact h.notes.unique i j v w (id, s) hi hj hv hw

/-- Who has a slot has one that is there. -/
theorem slot_lt (h : p.Sound vs) (hi : vs[i]? = some v) {s : Nat} (hs : v.phase.slot? = some s) :
    s < p.slots.length := by
  obtain ⟨x, hx, -⟩ := Option.map_eq_some_iff.1 (h.slots.used_of hi hs : p.busy? s = some true)
  exact (List.getElem?_eq_some_iff.1 hx).1

/-- Who has a slot is admitted. -/
theorem admitted_ne_zero (h : p.Sound vs) (hv : v ∈ vs) {s : Nat} (hs : v.phase.slot? = some s) :
    p.admitted ≠ 0 := by
  rw [h.admitted]
  exact fun hz => List.countP_eq_zero.1 hz v hv (by simp [Phase.isAdmitted, hs])

/-- **What a visit does keeps the notes of the pool right.** -/
theorem change (h : p.Sound vs) (hi : vs[i]? = some v) (hch : v.Change p e p' v') :
    p'.Sound (vs.set i v') := by
  have hv := h.proper v (List.mem_of_getElem? hi)
  refine ⟨?_, ?_, ?_, ?_, ?_, ?_, fun t => ?_, fun w hw => ?_⟩
  · rcases hch.slots with ⟨hkey, hp⟩ | ⟨s, hnone, hsome, hidle, hp⟩ | ⟨s, hsome, hnone, hp⟩
    · exact h.slots.keep hi hkey hp
    · exact h.slots.take hi hnone hsome hidle.not_busy hp
    · exact h.slots.give hi hsome hnone hp
  · rcases hch.notes with ⟨hkey, hp⟩ | ⟨id, hnone, hsome, hnot, hp⟩ | ⟨id, s, hold, hnew, hp⟩ |
      ⟨id, s, hsome, hnone, hp⟩
    · exact h.notes.keep hi hkey (by simp [hp])
    · have hfree : p.inFlight[id]? = none := by simpa using hnot
      refine h.notes.take hi hnone hsome (by simp [hfree]) fun ⟨x, s⟩ => ?_
      by_cases hx : id = x
      · subst hx
        simp [hp, hfree, eq_comm]
      · simp [hp, Std.ExtTreeMap.getElem?_insert, hx, Ne.symm hx]
    · have hid : p.inFlight[id]? = some none := h.notes.used_of hi hold
      refine h.notes.set hi (fun n hn => ?_) fun ⟨x, t⟩ => ?_
      · obtain rfl := Option.some.inj (hnew.symm.trans hn)
        exact Or.inr (by simp [hid])
      · by_cases hx : id = x
        · subst hx
          simp [hp, hold, hnew, hid, eq_comm]
        · simp [hp, hold, hnew, Std.ExtTreeMap.getElem?_insert, hx]
    · have hid : p.inFlight[id]? = some s := h.notes.used_of hi hsome
      refine h.notes.give hi hsome hnone fun ⟨x, t⟩ => ?_
      by_cases hx : id = x
      · subst hx
        simp [hp, hid, eq_comm]
      · simp [hp, Std.ExtTreeMap.getElem?_erase, hx, Ne.symm hx]
  · rcases hch.tickets with ⟨hkey, hp, -⟩ | ⟨hnone, hsome, hp, -⟩ | ⟨t, hsome, hnone, hp, -⟩
    · exact h.tickets.keep hi hkey (by simp [hp])
    · refine h.tickets.take hi hnone hsome (fun ht => ?_) (by simp [hp, or_comm])
      exact Nat.lt_irrefl _ (h.lt_next _ ht)
    · refine h.tickets.give hi hsome hnone fun x => ?_
      rw [hp, h.nodup_waiting.mem_erase_iff]
  · rcases hch.tickets with ⟨-, hp, -⟩ | ⟨-, -, hp, -⟩ | ⟨t, -, -, hp, -⟩ <;> rw [hp]
    · exact h.ascending
    · exact List.pairwise_append.2 ⟨h.ascending, List.pairwise_singleton _ _,
        fun t ht u hu => List.mem_singleton.1 hu ▸ h.lt_next t ht⟩
    · exact h.ascending.sublist List.erase_sublist
  · rcases hch.tickets with ⟨-, hp, hn⟩ | ⟨-, -, hp, hn⟩ | ⟨t, -, -, hp, hn⟩ <;> rw [hp, hn]
    · exact h.lt_next
    · intro t ht
      rcases List.mem_append.1 ht with ht | ht
      · exact Nat.lt_succ_of_lt (h.lt_next t ht)
      · exact List.mem_singleton.1 ht ▸ Nat.lt_succ_self _
    · exact fun t ht => h.lt_next t (List.mem_of_mem_erase ht)
  · have hcount := countP_set_of_some hi v' (·.phase.isAdmitted)
    have := h.admitted
    rcases hch.places with ⟨ha, hp⟩ | ⟨ha, ha', hp⟩ | ⟨ha, ha', hp⟩
    · rw [ha] at hcount
      omega
    · simp only [ha, ha', if_true] at hcount
      simp at hcount
      omega
    · simp only [ha, ha', if_true] at hcount
      simp at hcount
      omega
  · have hcount := countP_set_of_some hi v' fun v => v.phase.tally? = some t
    have htally := hch.tally hv t
    have := h.tally t
    simp only [decide_eq_true_eq] at hcount
    omega
  · rcases List.mem_or_eq_of_mem_set hw with hw | rfl
    · exact h.proper w hw
    · exact hch.proper hv

/-- A change was told. -/
theorem wake (h : p.Sound vs) : p.Sound (vs.map Visit.wake) := by
  have hcount (q : Phase → Bool) :
      (vs.map Visit.wake).countP (fun v => q v.phase) = vs.countP fun v => q v.phase :=
    List.countP_map
  refine ⟨h.slots.map fun _ => rfl, h.notes.map fun _ => rfl, h.tickets.map fun _ => rfl,
    h.ascending, h.lt_next, ?_, fun t => ?_, fun w hw => ?_⟩
  · exact h.admitted.trans (hcount (·.isAdmitted)).symm
  · exact (h.tally t).trans (hcount fun ph => ph.tally? = some t).symm
  · obtain ⟨v, hv, rfl⟩ := List.mem_map.1 hw
    exact (h.proper v hv).wake

/-- A visit woke. -/
theorem stir (h : p.Sound vs) (hi : vs[i]? = some v) : p.Sound (vs.set i v.wake) := by
  have hcount (q : Phase → Bool) : (vs.set i v.wake).countP (fun v => q v.phase) =
      vs.countP fun v => q v.phase :=
    Nat.add_right_cancel (countP_set_of_some hi v.wake fun v => q v.phase)
  refine ⟨h.slots.keep hi rfl fun _ => Iff.rfl, h.notes.keep hi rfl fun _ => Iff.rfl,
    h.tickets.keep hi rfl fun _ => Iff.rfl, h.ascending, h.lt_next, ?_, fun t => ?_, fun w hw => ?_⟩
  · exact h.admitted.trans (hcount (·.isAdmitted)).symm
  · exact (h.tally t).trans (hcount fun ph => ph.tally? = some t).symm
  · rcases List.mem_or_eq_of_mem_set hw with hw | rfl
    · exact h.proper w hw
    · exact (h.proper v (List.mem_of_getElem? hi)).wake

/-- An item came in. -/
theorem enter (h : p.Sound vs) (hv : v.Proper) (hslot : v.phase.slot? = none)
    (hnote : v.phase.note? = none) (hticket : v.phase.ticket? = none) {s : PoolStats}
    (htally : ∀ t, s.of t = p.stats.of t + if v.phase.tally? = some t then 1 else 0) :
    Pool.Sound { p with stats := s } (vs ++ [v]) := by
  refine ⟨h.slots.concat hslot, h.notes.concat hnote, h.tickets.concat hticket, h.ascending,
    h.lt_next, ?_, fun t => ?_, fun w hw => ?_⟩
  · simpa [List.countP_append, Phase.isAdmitted, hslot, hticket] using h.admitted
  · rw [htally t, h.tally t, List.countP_append, List.countP_singleton]
    simp
  · rcases List.mem_append.1 hw with hw | hw
    · exact h.proper w hw
    · exact List.mem_singleton.1 hw ▸ hv

/-- Steps that leave the notes of the pool alone. -/
theorem congr (h : p.Sound vs) (hbusy : ∀ s, p'.busy? s = p.busy? s)
    (hnotes : p'.inFlight = p.inFlight) (hwaiting : p'.waiting = p.waiting)
    (hnext : p'.nextTicket = p.nextTicket) (hadmitted : p'.admitted = p.admitted)
    (hstats : p'.stats = p.stats) : p'.Sound vs := by
  refine ⟨h.slots.congr fun s => ?_, h.notes.congr fun n => ?_, h.tickets.congr fun t => ?_,
    ?_, ?_, hadmitted.trans h.admitted, fun t => ?_, h.proper⟩
  · rw [Busy, Busy, hbusy]
  · rw [hnotes]
  · rw [hwaiting]
  · rw [hwaiting]
    exact h.ascending
  · rw [hwaiting, hnext]
    exact h.lt_next
  · rw [hstats]
    exact h.tally t

end Pool.Sound

/-! ## The whole pool -/

namespace Pool

variable {p p' : Pool}

theorem foldl_updateLink (f : WorkerLink → WorkerLink) (ks : List Nat) (p : Pool) :
    ks.foldl (fun p k => p.updateLink k f) p =
      { p with links := ks.foldl (fun ls k => ls.modify k f) p.links } := by
  induction ks generalizing p with
  | nil => rfl
  | cons k ks ih => rw [List.foldl_cons, ih]; rfl

/-- What `cancel` changes. -/
theorem cancel_eq (h : p.cancelled = false) : p.cancel =
    { p with cancelled := true
             links := p.busyLinks.foldl (fun ls k => ls.modify k WorkerLink.kill) p.links } := by
  rw [cancel, if_neg (by simp [h]), foldl_updateLink]

theorem drain?_eq_some_iff {links : List Nat} : p.drain? = some (p', links) ↔
    p.admitted = 0 ∧ p' = { p with slots := p.slots.map fun s => { s with link := none } } ∧
      links = p.slots.filterMap (·.link) := by
  unfold drain?
  split_ifs with h
  · simp [h, eq_comm]
  · simp [h]

end Pool

/-! ## Runs -/

namespace Traffic

variable {c c' : Traffic} {m : Move} {moves : List Move} {settings : PoolSettings}
  {processors : Nat}

theorem pass_pool (c : Traffic) (i : Nat) (e : Visit.Event) (p : Pool) (v : Visit) :
    (c.pass i e p v).pool = p := by
  cases e <;> rfl

theorem pass_visits (c : Traffic) (i : Nat) (e : Visit.Event) (p : Pool) (v : Visit) :
    (c.pass i e p v).visits = c.visits.set i v ∨
      (c.pass i e p v).visits = (c.visits.set i v).map Visit.wake := by
  cases e with
  | dispatched | withdrawn => exact Or.inr rfl
  | _ => exact Or.inl rfl

theorem pass_closings (c : Traffic) (i : Nat) (e : Visit.Event) (p : Pool) (v : Visit) :
    (c.pass i e p v).closings = c.closings ∨
      (c.pass i e p v).closings = c.closings.map Closing.wake := by
  cases e with
  | dispatched | withdrawn => exact Or.inr rfl
  | _ => exact Or.inl rfl

theorem sound_start (settings : PoolSettings) (processors : Nat) :
    (start settings processors).pool.Sound (start settings processors).visits := by
  refine ⟨.nil fun s hs => ?_, .nil fun n hn => ?_, .nil fun t ht => ?_, .nil, fun t ht => ?_,
    rfl, fun t => ?_, fun v hv => ?_⟩
  · simp [start, Pool.make, Pool.Busy, Pool.busy?, List.getElem?_replicate] at hs
  · simp [start, Pool.make] at hn
  · simp [start, Pool.make] at ht
  · simp [start, Pool.make] at ht
  · cases t <;> rfl
  · simp [start] at hv

theorem Step.sound (h : Step c m c') (hc : c.pool.Sound c.visits) : c'.pool.Sound c'.visits := by
  cases h with
  | @come item d hid =>
    have hv : Visit.Proper ⟨item.id, .arrived d.item, .awake⟩ := ⟨hid, by simp, by simp, by simp⟩
    exact hc.enter hv rfl rfl rfl fun t => rfl
  | @skip item d hid =>
    have hv : Visit.Proper ⟨item.id, .done ⟨d.item.id, .skipped⟩, .awake⟩ :=
      ⟨hid, by simp, by simp, by simp⟩
    refine hc.enter hv rfl rfl rfl fun t => ?_
    cases t <;> rfl
  | visit hi hv =>
    have hset := hc.change hi hv.change
    rw [pass_pool]
    rcases pass_visits c _ _ _ _ with hvs | hvs <;> rw [hvs]
    · exact hset
    · exact hset.wake
  | tell => exact hc.wake
  | stir hi => exact hc.stir hi
  | cancel hcan =>
    refine hc.wake.congr ?_ ?_ ?_ ?_ ?_ ?_ <;> simp [Pool.cancel_eq hcan, Pool.busy?]
  | close => exact hc.wake.congr (fun _ => rfl) rfl rfl rfl rfl rfl
  | drain _ hd =>
    obtain ⟨-, rfl, -⟩ := Pool.drain?_eq_some_iff.1 hd
    refine hc.congr (fun s => ?_) rfl rfl rfl rfl rfl
    simp [Pool.busy?, Function.comp_def]
  | stop => exact hc.congr (fun _ => rfl) rfl rfl rfl rfl rfl
  | rest | stirClosing | stopped => exact hc

theorem Run.sound_of (h : Run c moves c') (hc : c.pool.Sound c.visits) :
    c'.pool.Sound c'.visits := by
  induction h with
  | nil => exact hc
  | snoc _ hs ih => exact hs.sound ih

theorem Run.sound (h : Run (start settings processors) moves c) : c.pool.Sound c.visits :=
  h.sound_of (sound_start settings processors)

/-! ## What becomes of a visit -/

/-- The number of the item that a move hands in. -/
def Move.came? : Move → Option UInt64
  | .come item _ => some item.id
  | _ => none

/-- Visits are in the order in which their items came in. -/
theorem Step.ids (h : Step c m c') :
    c'.visits.map (·.id) = c.visits.map (·.id) ++ m.came?.toList := by
  have hwake (vs : List Visit) : (vs.map Visit.wake).map (·.id) = vs.map (·.id) := by
    simp [Visit.wake, Function.comp_def]
  have hset {i : Nat} {v v' : Visit} (hi : c.visits[i]? = some v) (hid : v'.id = v.id) :
      (c.visits.set i v').map (·.id) = c.visits.map (·.id) := by
    rw [List.map_set, hid]
    exact set_same (by rw [List.getElem?_map, hi, Option.map_some])
  cases h with
  | come | skip => simp [enter, Move.came?]
  | @visit i e v v' p hi hv =>
    have hid := hset hi hv.change.id_eq.1
    have hnone : (Move.visit i e).came? = none := rfl
    rcases pass_visits c i e p v' with hvs | hvs
    · rw [hvs, hid, hnone, Option.toList_none, List.append_nil]
    · rw [hvs, hwake, hid, hnone, Option.toList_none, List.append_nil]
  | @stir i v hi =>
    have hid : (c.visits.set i v.wake).map (·.id) = c.visits.map (·.id) := hset hi rfl
    simpa [Move.came?] using hid
  | tell | cancel | close => simp [wake, hwake, Move.came?]
  | _ => simp [Move.came?]

theorem Run.ids (h : Run c moves c') :
    c'.visits.map (·.id) = c.visits.map (·.id) ++ moves.filterMap Move.came? := by
  induction h with
  | nil => simp
  | snoc _ hs ih =>
    rw [hs.ids, ih, List.filterMap_append, List.append_assoc]
    congr 2

/-- The visit is as before, at most told of a change. -/
def Told (v w : Visit) : Prop := w = v ∨ w = v.wake

namespace Told

variable {v w : Visit}

theorem phase (h : Told v w) : w.phase = v.phase := by
  rcases h with rfl | rfl <;> rfl

theorem id (h : Told v w) : w.id = v.id := by
  rcases h with rfl | rfl <;> rfl

theorem calling (h : Told v w) {l : WorkerLink} (hl : w.stance = .calling l) :
    v.stance = .calling l := by
  rcases h with rfl | rfl
  · exact hl
  · cases hs : v.stance <;> simp_all [Visit.wake, Stance.wake]

theorem asleep (h : Told v w) (hl : w.stance = .asleep) : v.stance = .asleep := by
  rcases h with rfl | rfl
  · exact hl
  · cases hs : v.stance <;> simp_all [Visit.wake, Stance.wake]

end Told

/-- A visit goes on by its own moves; at all others it is at most told of a change. -/
theorem Step.of_visit (h : Step c m c') {i : Nat} {v : Visit} (hi : c.visits[i]? = some v) :
    ∃ w, c'.visits[i]? = some w ∧ ((∀ e, m ≠ .visit i e) ∧ Told v w ∨
      ∃ e v', m = .visit i e ∧ v.Change c.pool e c'.pool v' ∧ Told v' w) := by
  have hkept {u : Visit} (vs : List Visit) (hvs : vs[i]? = some u) :
      (vs.map Visit.wake)[i]? = some u.wake := by simp [hvs]
  cases h with
  | come | skip =>
    refine ⟨v, ?_, Or.inl ⟨nofun, Or.inl rfl⟩⟩
    have hlt := (List.getElem?_eq_some_iff.1 hi).1
    exact (List.getElem?_append_left hlt).trans hi
  | @visit j e u u' p hj hu =>
    by_cases hij : i = j
    · subst hij
      obtain rfl := Option.some.inj (hi.symm.trans hj)
      have hset : (c.visits.set i u')[i]? = some u' := getElem?_set_same hi u'
      have hch := pass_pool c i e p u' ▸ hu.change
      rcases pass_visits c i e p u' with hvs | hvs <;> rw [hvs]
      · exact ⟨u', hset, Or.inr ⟨e, u', rfl, hch, Or.inl rfl⟩⟩
      · exact ⟨u'.wake, hkept _ hset, Or.inr ⟨e, u', rfl, hch, Or.inr rfl⟩⟩
    · have hset : (c.visits.set j u')[i]? = some v := by
        rw [getElem?_set_of_some hj, if_neg hij, hi]
      have hne (e' : Visit.Event) : Move.visit j e ≠ .visit i e' :=
        fun he => hij (Move.visit.inj he).1.symm
      rcases pass_visits c j e p u' with hvs | hvs <;> rw [hvs]
      · exact ⟨v, hset, Or.inl ⟨hne, Or.inl rfl⟩⟩
      · exact ⟨v.wake, hkept _ hset, Or.inl ⟨hne, Or.inr rfl⟩⟩
  | tell | cancel | close => exact ⟨v.wake, hkept _ hi, Or.inl ⟨nofun, Or.inr rfl⟩⟩
  | @stir j u hj =>
    by_cases hij : i = j
    · subst hij
      obtain rfl := Option.some.inj (hi.symm.trans hj)
      exact ⟨v.wake, getElem?_set_same hi _, Or.inl ⟨nofun, Or.inr rfl⟩⟩
    · have hset : (c.visits.set j u.wake)[i]? = some v := by
        rw [getElem?_set_of_some hj, if_neg hij, hi]
      exact ⟨v, hset, Or.inl ⟨nofun, Or.inl rfl⟩⟩
  | _ => exact ⟨v, hi, Or.inl ⟨nofun, Or.inl rfl⟩⟩

/-- A visit that was not there came in by this step. -/
theorem Step.of_new_visit (h : Step c m c') {i : Nat} {w : Visit} (hi : c'.visits[i]? = some w)
    (hnone : c.visits[i]? = none) : ∃ item d, m = .come item d ∧ d.item.id = item.id ∧
      (d.skipped = false ∧ w = ⟨item.id, .arrived d.item, .awake⟩ ∨
        d.skipped = true ∧ w = ⟨item.id, .done ⟨d.item.id, .skipped⟩, .awake⟩) := by
  have hnew {v : Visit} (hv : (c.visits ++ [v])[i]? = some w) : w = v := by
    rw [List.getElem?_append_right (List.getElem?_eq_none_iff.1 hnone)] at hv
    exact List.mem_singleton.1 (List.mem_of_getElem? hv)
  have hold {vs : List Visit} (hlen : vs.length = c.visits.length) (hv : vs[i]? = some w) :
      False := by
    have := (List.getElem?_eq_some_iff.1 hv).1
    have := List.getElem?_eq_none_iff.1 hnone
    omega
  cases h with
  | come hid hd => exact ⟨_, _, rfl, hid, Or.inl ⟨hd, hnew hi⟩⟩
  | skip hid hd => exact ⟨_, _, rfl, hid, Or.inr ⟨hd, hnew hi⟩⟩
  | @visit j e u u' p =>
    rcases pass_visits c j e p u' with hvs | hvs <;> rw [hvs] at hi <;>
      exact (hold (by simp) hi).elim
  | tell | cancel | close => exact (hold (List.length_map _) hi).elim
  | stir => exact (hold List.length_set hi).elim
  | _ => exact (hold rfl hi).elim

/-- What a visit was before a step, if it was there. -/
theorem Step.visit_cases (h : Step c m c') {i : Nat} {w : Visit} (hi : c'.visits[i]? = some w) :
    (c.visits[i]? = none ∧ ∃ item d, m = .come item d ∧ d.item.id = item.id ∧
      (d.skipped = false ∧ w = ⟨item.id, .arrived d.item, .awake⟩ ∨
        d.skipped = true ∧ w = ⟨item.id, .done ⟨d.item.id, .skipped⟩, .awake⟩)) ∨
    ∃ v, c.visits[i]? = some v ∧ ((∀ e, m ≠ .visit i e) ∧ Told v w ∨
      ∃ e v', m = .visit i e ∧ v.Change c.pool e c'.pool v' ∧ Told v' w) := by
  cases hv : c.visits[i]? with
  | none => exact Or.inl ⟨rfl, h.of_new_visit hi hv⟩
  | some v =>
    obtain ⟨w', hw', hcases⟩ := h.of_visit hv
    obtain rfl := Option.some.inj (hi.symm.trans hw')
    exact Or.inr ⟨v, rfl, hcases⟩

/-- Visits stay. -/
theorem Run.exists_visit (h : Run c moves c') {i : Nat} {v : Visit} (hi : c.visits[i]? = some v) :
    ∃ w, c'.visits[i]? = some w := by
  induction h with
  | nil => exact ⟨v, hi⟩
  | snoc _ hs ih =>
    obtain ⟨w, hw⟩ := ih
    obtain ⟨w', hw', -⟩ := hs.of_visit hw
    exact ⟨w', hw'⟩

theorem Run.append (h : Run c moves c') {later : List Move} {c'' : Traffic}
    (h' : Run c' later c'') : Run c (moves ++ later) c'' := by
  induction h' with
  | nil => rwa [List.append_nil]
  | snoc _ hs ih => exact List.append_assoc moves _ _ ▸ ih.snoc hs

theorem Run.exists_step (h : Run c moves c') (hm : m ∈ moves) :
    ∃ before c₁ c₂, Run c before c₁ ∧ Step c₁ m c₂ := by
  induction h with
  | nil => cases hm
  | snoc hr hs ih =>
    rcases List.mem_append.1 hm with hm | hm
    · exact ih hm
    · obtain rfl := List.mem_singleton.1 hm
      exact ⟨_, _, _, hr, hs⟩

/-- Who has come to its result stays with it. -/
theorem Step.done (h : Step c m c') {i : Nat} {v : Visit} {r : WorkResult}
    (hi : c.visits[i]? = some v) (hv : v.phase = .done r) :
    ∃ w, c'.visits[i]? = some w ∧ w.phase = .done r := by
  obtain ⟨w, hw, ⟨-, hwv⟩ | ⟨e, v', -, hch, -⟩⟩ := h.of_visit hi
  · exact ⟨w, hw, hwv.phase.trans hv⟩
  · exact absurd hv (hch.ne_done r)

theorem Run.done (h : Run c moves c') {i : Nat} {v : Visit} {r : WorkResult}
    (hi : c.visits[i]? = some v) (hv : v.phase = .done r) :
    ∃ w, c'.visits[i]? = some w ∧ w.phase = .done r := by
  induction h with
  | nil => exact ⟨v, hi, hv⟩
  | snoc _ hs ih =>
    obtain ⟨w, hw, hdone⟩ := ih
    exact hs.done hw hdone

/-! ## What a step leaves alone -/

/-- The settings and the slots stay, and so does that the pool is cancelled or closed. -/
structure Keeps (p p' : Pool) : Prop where
  settings : p'.settings = p.settings
  slots : p'.slots.length = p.slots.length
  cancelled : p.cancelled = true → p'.cancelled = true
  closing : p.closing = true → p'.closing = true

theorem Keeps.not_cancelled {p p' : Pool} (h : Keeps p p') (hc : p'.cancelled = false) :
    p.cancelled = false :=
  Bool.eq_false_iff.2 fun ht => by simp [h.cancelled ht] at hc

theorem Step.keeps (h : Step c m c') : Keeps c.pool c'.pool := by
  cases h with
  | @visit i e v v' p hi hv =>
    obtain ⟨hcan, hcl, hsettings, hslots⟩ := hv.change.frame
    rw [← pass_pool c i e p v'] at hcan hcl hsettings hslots
    exact ⟨hsettings, hslots, fun h => hcan.trans h, fun h => hcl.trans h⟩
  | cancel hc => rw [Pool.cancel_eq hc]; exact ⟨rfl, rfl, fun _ => rfl, id⟩
  | close => exact ⟨rfl, rfl, id, fun _ => rfl⟩
  | drain _ hd =>
    obtain ⟨-, rfl, -⟩ := Pool.drain?_eq_some_iff.1 hd
    exact ⟨rfl, List.length_map _, id, id⟩
  | _ => exact ⟨rfl, rfl, id, id⟩

theorem Run.keeps (h : Run c moves c') : Keeps c.pool c'.pool := by
  induction h with
  | nil => exact ⟨rfl, rfl, id, id⟩
  | snoc _ hs ih =>
    have hk := hs.keeps
    exact ⟨hk.settings.trans ih.settings, hk.slots.trans ih.slots, hk.cancelled ∘ ih.cancelled,
      hk.closing ∘ ih.closing⟩

/-! ## After any moves -/

/-- Visit `i` has the slot. -/
def Has (c : Traffic) (i s : Nat) : Prop := ∃ v, c.visits[i]? = some v ∧ v.phase.slot? = some s

/-- Visit `i` has the slot for this item, and no result is counted yet. -/
def Serves (c : Traffic) (i : Nat) (id : UInt64) (s : Nat) : Prop :=
  ∃ v, c.visits[i]? = some v ∧ v.id = id ∧ v.phase.slot? = some s ∧ v.phase.counted? = none

/-- A worker is called for the item in visit `i`. -/
def Calls (c : Traffic) (i : Nat) (id : UInt64) : Prop :=
  ∃ v l, c.visits[i]? = some v ∧ v.id = id ∧ v.stance = .calling l

/-- What a pool notes of those who use it, and what they get from it. -/
structure Exact (moves : List Move) (c : Traffic) : Prop where
  /-- Visits are those of the items that came in. -/
  ids : c.visits.map (·.id) = moves.filterMap Move.came?
  busy : ∀ s, c.pool.Busy s → ∃! i, c.Has i s
  has : ∀ i s, c.Has i s → c.pool.Busy s
  /-- No item is with two workers. -/
  calls : ∀ i j id, c.Calls i id → c.Calls j id → i = j
  /-- The notes with a slot are those of the items that have one. -/
  noted : ∀ i id s, c.Serves i id s → c.pool.inFlight[id]? = some (some s)
  serves : ∀ id s, c.pool.inFlight[id]? = some (some s) → ∃! i, c.Serves i id s
  admitted : c.pool.admitted = c.visits.countP (·.phase.isAdmitted)
  /-- Who has a result keeps it, and it is one to its item. -/
  result : ∀ (i : Nat) (v : Visit) (r : WorkResult), c.visits[i]? = some v → v.phase = .done r →
    r.id = v.id ∧ ∀ later c', Run c later c' → ∃ w, c'.visits[i]? = some w ∧ w.phase = .done r
  /-- Each result is counted once. -/
  tally : ∀ t, c.pool.stats.of t = c.visits.countP fun v => v.phase.tally? = some t

/-- **After any moves the notes of a pool are exact.** -/
theorem run_exact (h : Run (start settings processors) moves c) : Exact moves c := by
  have hc := h.sound
  have hnote {i s : Nat} {id : UInt64} : c.Serves i id s ↔
      ∃ v, c.visits[i]? = some v ∧ v.phase.note? = some (id, some s) := by
    refine exists_congr fun v => and_congr_right fun hi => ?_
    rw [Phase.note?_eq_some_iff, (hc.proper v (List.mem_of_getElem? hi)).id_eq]
  constructor
  case ids => simpa [start] using h.ids
  case busy =>
    intro s hs
    obtain ⟨i, v, hi, hv⟩ := (hc.slots.used_iff s).1 hs
    refine ⟨i, ⟨v, hi, hv⟩, ?_⟩
    rintro j ⟨w, hj, hw⟩
    exact hc.slots.unique j i w v s hj hi hw hv
  case has =>
    rintro i s ⟨v, hi, hv⟩
    exact hc.slots.used_of hi hv
  case calls =>
    have hnoted {i : Nat} {id : UInt64} (hi : c.Calls i id) :
        ∃ v s, c.visits[i]? = some v ∧ v.phase.note? = some (id, some s) := by
      obtain ⟨v, l, hi, rfl, hv⟩ := hi
      have hp := hc.proper v (List.mem_of_getElem? hi)
      obtain ⟨item, s, k, hph⟩ := hp.calling l hv
      refine ⟨v, s, hi, Phase.note?_eq_some_iff.2 ⟨hp.id_eq, ?_⟩⟩
      simp [hph, Phase.slot?, Phase.counted?]
    intro i j id hi hj
    obtain ⟨v, s, hi, hv⟩ := hnoted hi
    obtain ⟨w, s', hj, hw⟩ := hnoted hj
    exact hc.note_unique hi hj hv hw
  case noted =>
    intro i id s hi
    obtain ⟨v, hi, hv⟩ := hnote.1 hi
    exact hc.notes.used_of hi hv
  case serves =>
    intro id s hs
    obtain ⟨i, v, hi, hv⟩ := (hc.notes.used_iff (id, some s)).1 hs
    refine ⟨i, hnote.2 ⟨v, hi, hv⟩, fun j hj => ?_⟩
    obtain ⟨w, hj, hw⟩ := hnote.1 hj
    exact hc.note_unique hj hi hw hv
  case admitted => exact hc.admitted
  case result =>
    intro i v r hi hv
    refine ⟨?_, fun later c' hrun => hrun.done hi hv⟩
    have hid := (hc.proper v (List.mem_of_getElem? hi)).id_eq
    rwa [hv] at hid
  case tally => exact hc.tally

/-- The number of an item on its way is refused. -/
theorem run_exact_twice : ∃ moves c, Run (start { size := 1 } 4) moves c ∧ Exact moves c ∧
    c.visits.map (·.phase) = [.dispatched ⟨7, [], []⟩ 0,
      .done (.failed 7 .rejected "item 7 is already in flight")] := by
  have come (c : Traffic) : Step c (.come ⟨7, [], []⟩ ⟨⟨7, [], []⟩, false⟩) _ := .come rfl rfl
  have h₁ := (Run.nil (c := start { size := 1 } 4)).snoc (come _)
  have h₂ := h₁.snoc (.visit (i := 0) rfl (.register rfl))
  have h₃ := h₂.snoc (.visit (i := 0) rfl (.accept rfl))
  have h₄ := h₃.snoc (.visit (i := 0) rfl (.dispatch rfl))
  have h₅ := h₄.snoc (come _)
  have h₆ := h₅.snoc (.visit (i := 1) rfl (.register rfl))
  exact ⟨_, _, h₆, run_exact h₆, rfl⟩

end Traffic

end Rebuild
