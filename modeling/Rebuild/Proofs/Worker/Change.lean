/-
  What a visit can do to a pool.

  `Visit.Change` has one constructor for each way in which a visit can go on, with the pool
  as it is behind it; `Visit.Step.change` says that there are no others.  What holds of all
  steps is proved by cases of a change, and no other module opens the operations of a pool.
-/
import Mathlib.Tactic.Common
import Rebuild.Proofs.Containers
import Rebuild.Worker.Traffic

namespace Rebuild

/-! ## Calls -/

namespace WorkResult

/-- A worker has said this of an item: a value, or an error. -/
def IsAnswer (r : WorkResult) : Prop :=
  match r.outcome with
  | .answered _ => True
  | .failed f => f.kind = .reported
  | .skipped => False

instance (r : WorkResult) : Decidable r.IsAnswer :=
  match r with
  | ⟨_, .answered _⟩ => .isTrue trivial
  | ⟨_, .failed f⟩ => inferInstanceAs (Decidable (f.kind = .reported))
  | ⟨_, .skipped⟩ => .isFalse False.elim

/-- There was no answer: the worker crashed, or its time was up. -/
def IsLoss (r : WorkResult) : Prop :=
  match r.outcome with
  | .failed f => f.kind = .crashed ∨ f.kind = .timedOut
  | _ => False

theorem IsLoss.not_isAnswer {r : WorkResult} (h : r.IsLoss) : ¬ r.IsAnswer := by
  obtain ⟨id, outcome⟩ := r
  cases outcome with
  | failed f => rcases h with h | h <;> simp [IsAnswer, h]
  | _ => cases h

theorem IsLoss.not_ok {r : WorkResult} (h : r.IsLoss) : r.ok = false := by
  obtain ⟨id, outcome⟩ := r
  cases outcome with
  | failed f => rfl
  | _ => cases h

end WorkResult

namespace WorkerLink

variable {l after : WorkerLink} {item : Item} {limit : Int} {x : Exchange} {r : WorkResult}

/-- What a call leaves of a link. -/
inductive Called (l : WorkerLink) (item : Item) : WorkResult → WorkerLink → Prop
  | answered {r : WorkResult} (unread : List Text) :
      l.broken = false → r.id = item.id → r.IsAnswer →
      Called l item r { l with served := l.served + 1, unread }
  | lost {r : WorkResult} {after : WorkerLink} :
      r.id = item.id → r.IsLoss → after.broken = true → after.fingerprint = l.fingerprint →
      after.served = l.served → (l.reaped = true → after.reaped = true) → Called l item r after

theorem lose_called (l : WorkerLink) (item : Item) {kind : FailureKind} (message : Text)
    (hk : kind = .crashed ∨ kind = .timedOut) :
    Called l item (l.lose item kind message).1 (l.lose item kind message).2 :=
  .lost rfl hk rfl rfl rfl fun _ => rfl

theorem judge_called (hl : l.broken = false) (body : Text) (rest : List Text) :
    Called l item (l.judge item body rest).1 (l.judge item body rest).2 := by
  unfold judge
  split
  · exact lose_called l item _ (Or.inl rfl)
  · next response _ =>
    split_ifs with hid
    · exact lose_called l item _ (Or.inl rfl)
    · cases response.kind with
      | ok => exact .answered rest hl rfl trivial
      | error => exact .answered rest hl rfl rfl

/-- **A call ends with an answer of the worker, or breaks the link.** -/
theorem called_of_call (h : l.call item limit x = some (r, after)) : Called l item r after := by
  unfold call at h
  simp only at h
  split_ifs at h with hb
  · cases h
    exact .lost rfl (Or.inl rfl) hb rfl rfl id
  · have hl : l.broken = false := by simpa using hb
    split at h
    · cases h
      exact lose_called l item _ (Or.inr rfl)
    · split at h
      · next body rest _ =>
        have hj : Called l item (l.judge item body rest.pieces).1 _ := judge_called hl body _
        rwa [Option.some.inj h] at hj
      · cases h
        exact lose_called l item _ (Or.inr rfl)
      · cases h
        exact lose_called l item _ (Or.inl rfl)
      · cases h
    · cases h
      exact lose_called l item _ (Or.inl rfl)

theorem Called.id_eq (h : Called l item r after) : r.id = item.id := by
  cases h <;> assumption

end WorkerLink

/-- A result is counted. -/
def WorkResult.tallied (r : WorkResult) (s : PoolStats) : PoolStats :=
  if r.ok then { s with succeeded := s.succeeded + 1 } else { s with failed := s.failed + 1 }

/-! ## Slots -/

namespace Pool

variable {p : Pool} {s : Nat}

/-- Whether a slot is busy, if it is there. -/
def busy? (p : Pool) (s : Nat) : Option Bool := p.slots[s]?.map (·.busy)

/-- The slot is busy. -/
def Busy (p : Pool) (s : Nat) : Prop := p.busy? s = some true

/-- The slot is there, and is not busy. -/
def Idle (p : Pool) (s : Nat) : Prop := p.busy? s = some false

theorem Idle.not_busy (h : p.Idle s) : ¬ p.Busy s := by
  unfold Idle at h
  simp [Busy, h]

theorem idle_of_findIdx? {q : Slot → Bool} (hq : ∀ slot, q slot = true → slot.busy = false)
    (h : p.slots.findIdx? q = some s) : p.Idle s := by
  obtain ⟨hs, hqs, -⟩ := List.findIdx?_eq_some_iff_getElem.1 h
  simp [Idle, busy?, List.getElem?_eq_getElem hs, hq _ hqs]

/-- The slot that is picked is idle. -/
theorem idle_of_pickSlot? {fingerprint : Text} (h : p.pickSlot? fingerprint = some s) :
    p.Idle s := by
  simp only [pickSlot?, Option.orElse_eq_orElse, Option.orElse_eq_or, Option.or_eq_some_iff] at h
  rcases h with h | ⟨-, h | ⟨-, h⟩⟩
  · exact idle_of_findIdx? (by simp +contextual) h
  · exact idle_of_findIdx? (by simp +contextual) h
  · exact idle_of_findIdx? (by simp) h

/-- A slot is picked as long as some slot is idle. -/
theorem pickSlot?_eq_none_iff {fingerprint : Text} :
    p.pickSlot? fingerprint = none ↔ ∀ s, ¬ p.Idle s := by
  constructor
  · intro h s hs
    obtain ⟨slot, hs, hb⟩ := Option.map_eq_some_iff.1 hs
    simp only [pickSlot?, Option.orElse_eq_orElse, Option.orElse_eq_or, Option.or_eq_none_iff,
      List.findIdx?_eq_none_iff] at h
    simpa [hb] using h.2.2 slot (List.mem_of_getElem? hs)
  · intro h
    cases hp : p.pickSlot? fingerprint with
    | none => rfl
    | some s => exact absurd (idle_of_pickSlot? hp) (h s)

end Pool

/-! ## Ways to go on -/

namespace Visit

/-- A visit goes on in a pool, in one of these ways. -/
inductive Change (p : Pool) : Visit → Event → Pool → Visit → Prop
  | refuse {id : UInt64} {item : Item} (why : Text) :
      p.cancelled = true ∨ p.closing = true ∨ item.id ∈ p.inFlight →
      Change p ⟨id, .arrived item, .awake⟩ .inner
        (p.count fun s => { s with rejected := s.rejected + 1 })
        ⟨id, .done (.failed item.id .rejected why), .awake⟩
  | register {id : UInt64} {item : Item} :
      p.cancelled = false → p.closing = false → item.id ∉ p.inFlight →
      Change p ⟨id, .arrived item, .awake⟩ .inner
        { p with inFlight := p.inFlight.insert item.id none } ⟨id, .registered item, .awake⟩
  | cancelAtDoor {id : UInt64} {item : Item} (why : Text) :
      p.cancelled = true →
      Change p ⟨id, .registered item, .awake⟩ .inner
        ((p.forget item.id).count fun s => { s with failed := s.failed + 1 })
        ⟨id, .done (.failed item.id .cancelled why), .awake⟩
  | closeAtDoor {id : UInt64} {item : Item} (why : Text) :
      p.cancelled = false → p.closing = true →
      Change p ⟨id, .registered item, .awake⟩ .inner
        ((p.forget item.id).count fun s => { s with rejected := s.rejected + 1 })
        ⟨id, .done (.failed item.id .rejected why), .awake⟩
  | accept {id : UInt64} {item : Item} :
      p.cancelled = false → p.closing = false → UInt64.ofNat p.admitted < p.limit →
      Change p ⟨id, .registered item, .awake⟩ (.admitted p.nextTicket)
        { p.count fun s => { s with submitted := s.submitted + 1 } with
          admitted := p.admitted + 1
          nextTicket := p.nextTicket + 1
          waiting := p.waiting ++ [p.nextTicket] }
        ⟨id, .queued item p.nextTicket, .awake⟩
  | awaitPlace {id : UInt64} {item : Item} :
      p.cancelled = false → p.closing = false → ¬ UInt64.ofNat p.admitted < p.limit →
      Change p ⟨id, .registered item, .awake⟩ .inner p ⟨id, .registered item, .asleep⟩
  | withdraw {id : UInt64} {item : Item} {ticket : Nat} (why : Text) :
      p.cancelled = true →
      Change p ⟨id, .queued item ticket, .awake⟩ .withdrawn
        { ({ p with waiting := p.waiting.erase ticket }.forget item.id).count fun s =>
            { s with failed := s.failed + 1 } with admitted := p.admitted - 1 }
        ⟨id, .done (.failed item.id .cancelled why), .awake⟩
  | dispatch {id : UInt64} {item : Item} {ticket slot : Nat} :
      p.cancelled = false → p.waiting.head? = some ticket →
      p.pickSlot? item.fingerprint = some slot →
      Change p ⟨id, .queued item ticket, .awake⟩ (.dispatched ticket slot)
        { { p with waiting := p.waiting.erase ticket }.updateSlot slot fun s =>
            { s with busy := true } with inFlight := p.inFlight.insert item.id (some slot) }
        ⟨id, .dispatched item slot, .awake⟩
  | awaitSlot {id : UInt64} {item : Item} {ticket : Nat} :
      p.cancelled = false →
      p.waiting.head? ≠ some ticket ∨ p.pickSlot? item.fingerprint = none →
      Change p ⟨id, .queued item ticket, .awake⟩ .inner p ⟨id, .queued item ticket, .asleep⟩
  | findCancelled {id : UInt64} {item : Item} {slot : Nat} (why : Text) :
      p.cancelled = true →
      Change p ⟨id, .dispatched item slot, .awake⟩ .inner p
        ⟨id, Pool.unprepared item slot why, .awake⟩
  | findNone {id : UInt64} {item : Item} {slot : Nat} :
      p.cancelled = false → (p.linkOf slot).bind (p.links[·]?) = none →
      Change p ⟨id, .dispatched item slot, .awake⟩ .inner p ⟨id, .launching item slot, .awake⟩
  | findBroken {id : UInt64} {item : Item} {slot link : Nat} {l : WorkerLink} :
      p.cancelled = false → p.linkOf slot = some link → p.links[link]? = some l →
      l.broken = true →
      Change p ⟨id, .dispatched item slot, .awake⟩ .inner
        (p.updateSlot slot fun s => { s with link := none })
        ⟨id, .retiring item slot link false, .awake⟩
  | findUnfit {id : UInt64} {item : Item} {slot link : Nat} {l : WorkerLink} :
      p.cancelled = false → p.linkOf slot = some link → p.links[link]? = some l →
      l.broken = false → l.fingerprint ≠ item.fingerprint ∨ p.wornOut l = true →
      Change p ⟨id, .dispatched item slot, .awake⟩ .inner
        ((p.updateSlot slot fun s => { s with link := none }).count fun s =>
          { s with recycled := s.recycled + 1 })
        ⟨id, .retiring item slot link true, .awake⟩
  | findFit {id : UInt64} {item : Item} {slot link : Nat} {l : WorkerLink} :
      p.cancelled = false → p.linkOf slot = some link → p.links[link]? = some l →
      l.broken = false → l.fingerprint = item.fingerprint → p.wornOut l = false →
      Change p ⟨id, .dispatched item slot, .awake⟩ .inner p ⟨id, .ready item slot, .awake⟩
  | retire {id : UInt64} {item : Item} {slot link : Nat} {recycled : Bool} :
      Change p ⟨id, .retiring item slot link recycled, .awake⟩ .inner
        (p.updateLink link WorkerLink.reap) ⟨id, .launching item slot, .awake⟩
  | launch {id : UInt64} {item : Item} {slot : Nat} (process : Nat) :
      p.cancelled = false →
      Change p ⟨id, .launching item slot, .awake⟩
        (.launched slot p.links.length item.fingerprint) (p.place slot process item.fingerprint)
        ⟨id, .ready item slot, .awake⟩
  | launchFailed {id : UInt64} {item : Item} {slot : Nat} (why : Text) :
      Change p ⟨id, .launching item slot, .awake⟩ .inner p
        ⟨id, Pool.unprepared item slot why, .awake⟩
  | launchInVain {id : UInt64} {item : Item} {slot : Nat} (process : Nat) (why : Text) :
      p.cancelled = true →
      Change p ⟨id, .launching item slot, .awake⟩
        (.launched slot p.links.length item.fingerprint) (p.place slot process item.fingerprint)
        ⟨id, Pool.unprepared item slot why, .awake⟩
  | fetch {id : UInt64} {item : Item} {slot link : Nat} :
      p.linkOf slot = some link →
      Change p ⟨id, .ready item slot, .awake⟩ .inner p ⟨id, .calling item slot link, .awake⟩
  | fetchNone {id : UInt64} {item : Item} {slot : Nat} (why : Text) :
      p.linkOf slot = none →
      Change p ⟨id, .ready item slot, .awake⟩ .inner p
        ⟨id, Pool.unprepared item slot why, .awake⟩
  | send {id : UInt64} {item : Item} {slot link : Nat} {l : WorkerLink} :
      p.links[link]? = some l → l.broken = false →
      Change p ⟨id, .calling item slot link, .awake⟩ (.sent item link) p
        ⟨id, .calling item slot link, .calling l⟩
  | keep {id : UInt64} {item : Item} {slot link : Nat} {l : WorkerLink} :
      p.links[link]? = some l → l.broken = true →
      Change p ⟨id, .calling item slot link, .awake⟩ .inner p
        ⟨id, .calling item slot link, .calling l⟩
  | reply {id : UInt64} {item : Item} {slot link : Nat} {l after : WorkerLink} {r : WorkResult} :
      WorkerLink.Called l item r after →
      Change p ⟨id, .calling item slot link, .calling l⟩ (.replied link r)
        (p.updateLink link fun now => { after with broken := after.broken || now.broken })
        ⟨id, .settling slot r, .awake⟩
  | settle {id : UInt64} {slot : Nat} {r : WorkResult} :
      (∀ link l, p.linkOf slot = some link → p.links[link]? = some l → l.broken = false) →
      Change p ⟨id, .settling slot r, .awake⟩ .inner
        ((p.forget (p.blame r).id).count (p.blame r).tallied)
        ⟨id, .freeing slot (p.blame r), .awake⟩
  | loseLast {id : UInt64} {slot link : Nat} {l : WorkerLink} {r : WorkResult} :
      p.linkOf slot = some link → p.links[link]? = some l → l.broken = true →
      p.cancelled = true →
      Change p ⟨id, .settling slot r, .awake⟩ .inner
        (((p.forget (p.blame r).id).updateSlot slot fun s => { s with link := none }).count
          (p.blame r).tallied)
        ⟨id, .burying slot link none (p.blame r), .awake⟩
  | lose {id : UInt64} {slot link : Nat} {l : WorkerLink} {r : WorkResult} :
      p.linkOf slot = some link → p.links[link]? = some l → l.broken = true →
      p.cancelled = false →
      Change p ⟨id, .settling slot r, .awake⟩ .inner
        ((((p.forget (p.blame r).id).updateSlot slot fun s => { s with link := none }).count
          (p.blame r).tallied).count fun s => { s with crashed := s.crashed + 1 })
        ⟨id, .burying slot link (if p.closing then none else some l.fingerprint) (p.blame r),
          .awake⟩
  | bury {id : UInt64} {slot link : Nat} {r : WorkResult} :
      Change p ⟨id, .burying slot link none r, .awake⟩ .inner
        (p.updateLink link WorkerLink.reap) ⟨id, .freeing slot r, .awake⟩
  | buryFirst {id : UInt64} {slot link : Nat} {fingerprint : Text} {r : WorkResult} :
      Change p ⟨id, .burying slot link (some fingerprint) r, .awake⟩ .inner
        (p.updateLink link WorkerLink.reap) ⟨id, .replacing slot fingerprint r, .awake⟩
  | replace {id : UInt64} {slot : Nat} {fingerprint : Text} {r : WorkResult} (process : Nat) :
      Change p ⟨id, .replacing slot fingerprint r, .awake⟩
        (.launched slot p.links.length fingerprint) (p.place slot process fingerprint)
        ⟨id, .freeing slot r, .awake⟩
  | leaveEmpty {id : UInt64} {slot : Nat} {fingerprint : Text} {r : WorkResult} :
      Change p ⟨id, .replacing slot fingerprint r, .awake⟩ .inner p ⟨id, .freeing slot r, .awake⟩
  | free {id : UInt64} {slot : Nat} {r : WorkResult} :
      Change p ⟨id, .freeing slot r, .awake⟩ .freed
        { p.updateSlot slot fun s => { s with busy := false } with admitted := p.admitted - 1 }
        ⟨id, .done r, .awake⟩

variable {p p' : Pool} {v v' : Visit} {e : Event}

@[simp] theorem blame_id (p : Pool) (r : WorkResult) : (p.blame r).id = r.id := by
  unfold Pool.blame
  split
  · split_ifs <;> rfl
  · rfl

theorem blame_ok (p : Pool) (r : WorkResult) : (p.blame r).ok = r.ok := by
  obtain ⟨id, outcome⟩ := r
  cases outcome with
  | failed f =>
    unfold Pool.blame
    simp only
    split_ifs <;> rfl
  | _ => rfl

/-- The result of a call is kept, unless it is a loss behind `cancel`. -/
theorem blame_cases {r : WorkResult} (hr : r.IsAnswer ∨ r.IsLoss) :
    (p.blame r = r ∧ (r.IsAnswer ∨ p.cancelled = false)) ∨
      p.cancelled = true ∧ ∃ message, p.blame r = .failed r.id .cancelled message := by
  obtain ⟨id, outcome⟩ := r
  cases outcome with
  | answered value => exact Or.inl ⟨rfl, Or.inl trivial⟩
  | skipped => rcases hr with hr | hr <;> cases hr
  | failed f =>
    cases hc : p.cancelled with
    | false => exact Or.inl ⟨by simp [Pool.blame, hc], Or.inr rfl⟩
    | true =>
      rcases hr with hr | hr
      · replace hr : f.kind = .reported := hr
        exact Or.inl ⟨by simp [Pool.blame, hr], Or.inl hr⟩
      · refine Or.inr ⟨rfl, "cancelled: " ++ f.message, ?_⟩
        rcases hr with hr | hr <;> simp [Pool.blame, WorkResult.failed, hc, hr]

theorem register_change {id : UInt64} {item : Item} {next : Phase}
    (h : p.register item = (p', next)) :
    Change p ⟨id, .arrived item, .awake⟩ .inner p' ⟨id, next, .awake⟩ := by
  unfold Pool.register at h
  split_ifs at h with hc hcl hin <;> cases h
  · exact .refuse _ (Or.inl hc)
  · exact .refuse _ (Or.inr (Or.inl hcl))
  · exact .refuse _ (Or.inr (Or.inr hin))
  · exact .register (by simpa using hc) (by simpa using hcl) hin

theorem admit?_change (id : UInt64) {item : Item} {next : Phase}
    (h : p.admit? item = some (p', next)) :
    (∃ ticket, next = .queued item ticket ∧
      Change p ⟨id, .registered item, .awake⟩ (.admitted ticket) p' ⟨id, next, .awake⟩) ∨
    ∃ r, next = .done r ∧
      Change p ⟨id, .registered item, .awake⟩ .inner p' ⟨id, next, .awake⟩ := by
  unfold Pool.admit? at h
  split_ifs at h with hc hcl hlt <;> cases h
  · exact Or.inr ⟨_, rfl, .cancelAtDoor _ hc⟩
  · exact Or.inr ⟨_, rfl, .closeAtDoor _ (by simpa using hc) hcl⟩
  · exact Or.inl ⟨_, rfl, .accept (by simpa using hc) (by simpa using hcl) hlt⟩

theorem admit?_eq_none_iff {item : Item} : p.admit? item = none ↔
    p.cancelled = false ∧ p.closing = false ∧ ¬ UInt64.ofNat p.admitted < p.limit := by
  unfold Pool.admit?
  split_ifs <;> simp_all

theorem dispatch?_change (id : UInt64) {item : Item} {ticket : Nat} {next : Phase}
    (h : p.dispatch? item ticket = some (p', next)) :
    (∃ slot, next = .dispatched item slot ∧
      Change p ⟨id, .queued item ticket, .awake⟩ (.dispatched ticket slot) p'
        ⟨id, next, .awake⟩) ∨
    ∃ r, next = .done r ∧
      Change p ⟨id, .queued item ticket, .awake⟩ .withdrawn p' ⟨id, next, .awake⟩ := by
  unfold Pool.dispatch? at h
  simp only [bind, pure] at h
  split_ifs at h with hc hhead
  · cases h
    exact Or.inr ⟨_, rfl, .withdraw _ hc⟩
  · obtain ⟨slot, hslot, h⟩ := Option.bind_eq_some_iff.1 h
    cases h
    exact Or.inl ⟨_, rfl, .dispatch (by simpa using hc) (by simpa using hhead) hslot⟩

theorem dispatch?_eq_none_iff {item : Item} {ticket : Nat} : p.dispatch? item ticket = none ↔
    p.cancelled = false ∧
      (p.waiting.head? ≠ some ticket ∨ p.pickSlot? item.fingerprint = none) := by
  unfold Pool.dispatch?
  simp only [bind, pure]
  split_ifs with hc hhead
  · simp [hc]
  · simpa [hc] using Or.inl hhead
  · have hhead : p.waiting.head? = some ticket := by simpa using hhead
    cases hp : p.pickSlot? item.fingerprint <;> simp [hc, hhead]

theorem prepare_change {id : UInt64} {item : Item} {slot : Nat} {next : Phase}
    (h : p.prepare item slot = (p', next)) :
    Change p ⟨id, .dispatched item slot, .awake⟩ .inner p' ⟨id, next, .awake⟩ := by
  unfold Pool.prepare at h
  split_ifs at h with hc
  · cases h
    exact .findCancelled _ hc
  · have hc : p.cancelled = false := by simpa using hc
    split at h
    · next hlink =>
      cases h
      exact .findNone hc (by simp [hlink])
    · next link hlink =>
      split at h
      · next hl =>
        cases h
        exact .findNone hc (by simp [hlink, hl])
      · next l hl =>
        simp only at h
        split_ifs at h with hb hu <;> cases h
        · exact .findBroken hc hlink hl hb
        · exact .findUnfit hc hlink hl (by simpa using hb) hu
        · obtain ⟨hfp, hw⟩ := not_or.1 hu
          exact .findFit hc hlink hl (by simpa using hb) (by simpa using hfp) (by simpa using hw)

theorem settle_change {id : UInt64} {slot : Nat} {r : WorkResult} {next : Phase}
    (h : p.settle slot r = (p', next)) :
    Change p ⟨id, .settling slot r, .awake⟩ .inner p' ⟨id, next, .awake⟩ := by
  unfold Pool.settle at h
  simp only at h
  split at h
  · next link l hlost =>
    obtain ⟨link', hlink, hl⟩ := Option.bind_eq_some_iff.1 hlost
    obtain ⟨l', hl, heq⟩ := Option.map_eq_some_iff.1 hl
    cases heq
    replace hlink : p.linkOf slot = some link := hlink
    replace hl : p.links[link]? = some l := hl
    by_cases hb : l.broken = true
    · rw [if_pos hb] at h
      by_cases hc : p.cancelled = true
      · rw [if_pos (show (p.forget _).cancelled = true from hc)] at h
        cases h
        exact .loseLast hlink hl hb hc
      · rw [if_neg (show ¬ (p.forget _).cancelled = true from hc)] at h
        cases h
        exact .lose hlink hl hb (by simpa using hc)
    · rw [if_neg hb] at h
      cases h
      refine .settle fun link' l' hlink' hl' => ?_
      obtain rfl : link = link' := Option.some.inj (hlink.symm.trans hlink')
      obtain rfl : l = l' := Option.some.inj (hl.symm.trans hl')
      simpa using hb
  · next hlost =>
    cases h
    refine .settle fun link l hlink hl => absurd hlost ?_
    change (p.linkOf slot).bind _ ≠ none
    simp [hlink, Pool.forget, hl]

/-- **There are no other ways to go on.** -/
theorem Step.change (h : v.Step p e p' v') : Change p v e p' v' := by
  cases h with
  | register h => exact register_change h
  | accept h =>
    rcases admit?_change _ h with ⟨ticket, hnext, hch⟩ | ⟨r, hnext, -⟩
    · cases hnext
      exact hch
    · cases hnext
  | sendAway h =>
    rcases admit?_change _ h with ⟨ticket, hnext, -⟩ | ⟨r, hnext, hch⟩
    · cases hnext
    · exact hch
  | awaitPlace h =>
    obtain ⟨hc, hcl, hlt⟩ := admit?_eq_none_iff.1 h
    exact .awaitPlace hc hcl hlt
  | dispatch h =>
    rcases dispatch?_change _ h with ⟨slot, hnext, hch⟩ | ⟨r, hnext, -⟩
    · cases hnext
      exact hch
    · cases hnext
  | withdraw h =>
    rcases dispatch?_change _ h with ⟨slot, hnext, -⟩ | ⟨r, hnext, hch⟩
    · cases hnext
    · exact hch
  | awaitSlot h =>
    obtain ⟨hc, hwait⟩ := dispatch?_eq_none_iff.1 h
    exact .awaitSlot hc hwait
  | prepare h => exact prepare_change h
  | retire h =>
    cases h
    exact .retire
  | launch process h =>
    unfold Pool.install at h
    split_ifs at h with hc <;> cases h
    · exact .launchInVain process _ hc
    · exact .launch process (by simpa using hc)
  | launchFailed why => exact .launchFailed _
  | fetch h =>
    unfold Pool.fetch at h
    split at h <;> cases h
    · next hlink => exact .fetch hlink
    · next hlink => exact .fetchNone _ hlink
  | send hl hb => exact .send hl hb
  | keep hl hb => exact .keep hl hb
  | reply limit x h => exact .reply (WorkerLink.called_of_call h)
  | settle h => exact settle_change h
  | @bury _ _ _ respawn _ _ _ h =>
    cases respawn with
    | none =>
      cases h
      exact .bury
    | some fingerprint =>
      cases h
      exact .buryFirst
  | replace process h =>
    cases h
    exact .replace process
  | replaceFailed => exact .leaveEmpty
  | free h =>
    cases h
    exact .free

end Visit

end Rebuild
