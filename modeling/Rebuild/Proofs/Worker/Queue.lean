/-
  The queue of a pool.

  * `Run.admitted_le`: never more items are admitted than there are slots and places;
  * `Queue`: tickets are drawn one after the other, and slots are given out in their order;
  * `Attentive`: who sleeps cannot go on, or a change was not told yet.

  `Traffic.run_in_turn` collects what holds after any moves without `cancel`.
-/
import Mathlib.Algebra.Group.Nat.Defs
import Rebuild.Proofs.Worker.Traffic

namespace Rebuild

/-- A pool has a worker. -/
theorem PoolSettings.workers_pos (settings : PoolSettings) (processors : Nat) :
    0 < settings.workers processors := by
  unfold PoolSettings.workers
  split_ifs with h
  · exact Nat.lt_of_lt_of_le Nat.one_pos (Nat.le_max_right _ _)
  · exact Nat.pos_of_ne_zero fun hz => h (UInt64.toNat_inj.1 hz)

/-! ## What becomes of the queue -/

namespace Visit

namespace Event

/-- The ticket that is drawn. -/
def drawn? : Event → Option Nat
  | .admitted ticket => some ticket
  | _ => none

/-- The ticket that gets a slot. -/
def served? : Event → Option Nat
  | .dispatched ticket _ => some ticket
  | _ => none

/-- Others are told of it, at once or later. -/
def IsNews : Event → Prop
  | .dispatched _ _ | .withdrawn | .freed => True
  | _ => False

end Event

namespace Change

variable {p p' : Pool} {v v' : Visit} {e : Event}

theorem limit_eq (h : Change p v e p' v') : p'.limit = p.limit := by
  obtain ⟨-, -, hsettings, hslots⟩ := h.frame
  rw [Pool.limit, Pool.limit, hsettings, hslots]

/-- Nobody is admitted beyond the limit. -/
theorem admitted_le (h : Change p v e p' v') (hp : p.admitted ≤ p.limit.toNat) :
    p'.admitted ≤ p.limit.toNat := by
  cases h with
  | accept _ _ hlt =>
    have hword : p.admitted < 2 ^ 64 := Nat.lt_of_le_of_lt hp p.limit.toNat_lt
    rwa [UInt64.lt_iff_toNat_lt, UInt64.toNat_ofNat_of_lt' hword] at hlt
  | withdraw | free => exact Nat.le_trans (Nat.sub_le _ _) hp
  | _ => exact hp

/-- Tickets are drawn one after the other. -/
theorem drawn (h : Change p v e p' v') :
    List.range p'.nextTicket = List.range p.nextTicket ++ e.drawn?.toList := by
  cases h with
  | accept => exact List.range_succ
  | _ => exact (List.append_nil _).symm

/-- The queue grows at its end by the ticket that is drawn, and shrinks at its front by the
    ticket that gets a slot. -/
theorem served (h : Change p v e p' v') (hc : p.cancelled = false) :
    p.waiting ++ e.drawn?.toList = e.served?.toList ++ p'.waiting := by
  cases h with
  | @dispatch _ _ ticket _ _ hhead =>
    obtain ⟨rest, hrest⟩ := List.head?_eq_some_iff.1 hhead
    change p.waiting ++ [] = ticket :: p.waiting.erase ticket
    rw [hrest, List.erase_cons_head, List.append_nil]
  | withdraw _ hcan => simp [hc] at hcan
  | accept => rfl
  | _ => exact List.append_nil _

end Change

end Visit

/-! ## Who has to wait -/

/-- A visit in this phase cannot go on before the pool changes. -/
def Pool.Holds (p : Pool) : Phase → Prop
  | .registered item => p.admit? item = none
  | .queued item ticket => p.dispatch? item ticket = none
  | _ => False

namespace Pool

variable {p p' : Pool} {ph : Phase} {item : Item} {ticket : Nat}

theorem holds_registered_iff : p.Holds (.registered item) ↔
    p.cancelled = false ∧ p.closing = false ∧ ¬ UInt64.ofNat p.admitted < p.limit :=
  Visit.admit?_eq_none_iff

theorem holds_queued_iff : p.Holds (.queued item ticket) ↔
    p.cancelled = false ∧ (p.waiting.head? ≠ some ticket ∨ ∀ s, ¬ p.Idle s) := by
  rw [← @pickSlot?_eq_none_iff p item.fingerprint]
  exact Visit.dispatch?_eq_none_iff

theorem Holds.slot?_eq_none (h : p.Holds ph) : ph.slot? = none := by
  cases ph with
  | registered | queued => rfl
  | _ => exact h.elim

theorem Holds.congr (h : p.Holds ph) (hcancelled : p'.cancelled = p.cancelled)
    (hclosing : p'.closing = p.closing) (hadmitted : p'.admitted = p.admitted)
    (hlimit : p'.limit = p.limit) (hwaiting : p'.waiting = p.waiting)
    (hbusy : ∀ s, p'.busy? s = p.busy? s) : p'.Holds ph := by
  cases ph with
  | registered item =>
    rw [holds_registered_iff, hcancelled, hclosing, hadmitted, hlimit]
    exact holds_registered_iff.1 h
  | queued item ticket =>
    have hidle (s : Nat) : p'.Idle s ↔ p.Idle s := by rw [Idle, Idle, hbusy]
    simp only [holds_queued_iff, hcancelled, hwaiting, hidle]
    exact holds_queued_iff.1 h
  | _ => exact h

end Pool

namespace Visit.Change

variable {p p' : Pool} {v v' : Visit} {e : Event}

/-- Who has to wait goes on waiting unless there are news. -/
theorem holds (h : Change p v e p' v') (he : ¬ e.IsNews) {ph : Phase} (hph : p.Holds ph)
    (hticket : ∀ t, ph.ticket? = some t → t ∈ p.waiting) : p'.Holds ph := by
  have hlimit := h.limit_eq
  cases h with
  | accept hcan hcl hlt =>
    cases ph with
    | registered item => exact absurd hlt (Pool.holds_registered_iff.1 hph).2.2
    | queued item t =>
      -- somebody waits already, so the front stays
      have hne : p.waiting ≠ [] := List.ne_nil_of_mem (hticket t rfl)
      have hhead : (p.waiting ++ [p.nextTicket]).head? = p.waiting.head? :=
        List.head?_append_of_ne_nil _ hne
      rw [Pool.holds_queued_iff, hhead]
      exact Pool.holds_queued_iff.1 hph
    | _ => exact hph
  | dispatch | withdraw | free => exact absurd trivial he
  | register => exact hph.congr rfl rfl rfl rfl rfl fun _ => rfl
  | _ => exact hph.congr rfl rfl rfl hlimit rfl (by simp)

/-- Who falls asleep has to wait. -/
theorem holds_of_asleep (h : Change p v e p' v') (hs : v'.stance = .asleep) :
    p'.Holds v'.phase := by
  cases h with
  | awaitPlace hc hcl hlt => exact admit?_eq_none_iff.2 ⟨hc, hcl, hlt⟩
  | awaitSlot hc hw => exact dispatch?_eq_none_iff.2 ⟨hc, hw⟩
  | _ => cases hs

end Visit.Change

namespace Traffic

variable {c c' : Traffic} {m : Move} {moves : List Move} {settings : PoolSettings}
  {processors : Nat}

/-! ## Places -/

theorem Step.admitted_le (h : Step c m c') (hc : c.pool.admitted ≤ c.pool.limit.toNat) :
    c'.pool.admitted ≤ c'.pool.limit.toNat := by
  have hlimit : c'.pool.limit = c.pool.limit := by
    rw [Pool.limit, Pool.limit, h.keeps.settings, h.keeps.slots]
  rw [hlimit]
  cases h with
  | @visit i e v v' p hi hv =>
    rw [pass_pool]
    exact hv.change.admitted_le hc
  | cancel hcan =>
    rw [Pool.cancel_eq hcan]
    exact hc
  | drain _ hd =>
    obtain ⟨-, rfl, -⟩ := Pool.drain?_eq_some_iff.1 hd
    exact hc
  | _ => exact hc

theorem Run.limit_eq (h : Run (start settings processors) moves c) : c.pool.limit =
    UInt64.ofNat (settings.workers processors) + settings.queueCapacity := by
  rw [Pool.limit, h.keeps.settings, h.keeps.slots]
  simp [start, Pool.make]

/-- There is a place, as there is a worker. -/
theorem Run.limit_pos (h : Run (start settings processors) moves c)
    (hcap : settings.workers processors + settings.queueCapacity.toNat < 2 ^ 64) :
    UInt64.ofNat 0 < c.pool.limit := by
  have hpos := settings.workers_pos processors
  rw [UInt64.lt_iff_toNat_lt, h.limit_eq, UInt64.toNat_add, UInt64.toNat_ofNat']
  simp
  omega

/-- **No more items are admitted than there are slots and places in the queue.** -/
theorem Run.admitted_le (h : Run (start settings processors) moves c) :
    c.pool.admitted ≤ settings.workers processors + settings.queueCapacity.toNat := by
  have hle : c.pool.admitted ≤ c.pool.limit.toNat := by
    induction h with
    | nil => exact Nat.zero_le _
    | snoc _ hs ih => exact hs.admitted_le ih
  rw [h.limit_eq, UInt64.toNat_add, UInt64.toNat_ofNat'] at hle
  omega

/-! ## Tickets -/

namespace Move

/-- The ticket that is drawn. -/
def drawn? : Move → Option Nat
  | .visit _ e => e.drawn?
  | _ => none

/-- The ticket that gets a slot. -/
def served? : Move → Option Nat
  | .visit _ e => e.served?
  | _ => none

end Move

/-- Tickets are drawn one after the other, and leave the queue in this order. -/
structure Queue (moves : List Move) (c : Traffic) : Prop where
  drawn : moves.filterMap Move.drawn? = List.range c.pool.nextTicket
  served : c.pool.cancelled = false →
    moves.filterMap Move.served? ++ c.pool.waiting = List.range c.pool.nextTicket

theorem Step.queue (h : Step c m c') (hc : Queue moves c) : Queue (moves ++ [m]) c' := by
  have hkept (hdrawn : m.drawn? = none) (hserved : m.served? = none)
      (hnext : c'.pool.nextTicket = c.pool.nextTicket)
      (hwaiting : c'.pool.waiting = c.pool.waiting) : Queue (moves ++ [m]) c' := by
    refine ⟨?_, fun hcan => ?_⟩
    · simpa [hdrawn, hnext] using hc.drawn
    · simpa [hserved, hnext, hwaiting] using hc.served (h.keeps.not_cancelled hcan)
  cases h with
  | @visit i e v v' p hi hv =>
    have hch := hv.change
    refine ⟨?_, fun hcan => ?_⟩
    · rw [pass_pool, List.filterMap_append, hc.drawn, hch.drawn]
      cases e <;> rfl
    · rw [pass_pool] at hcan ⊢
      rw [hch.frame.1] at hcan
      rw [hch.drawn, ← hc.served hcan, List.append_assoc, hch.served hcan,
        List.filterMap_append, List.append_assoc]
      cases e <;> rfl
  | cancel hcan => refine hkept rfl rfl ?_ ?_ <;> rw [Pool.cancel_eq hcan]
  | drain _ hd =>
    obtain ⟨-, rfl, -⟩ := Pool.drain?_eq_some_iff.1 hd
    exact hkept rfl rfl rfl rfl
  | _ => exact hkept rfl rfl rfl rfl

theorem Run.queue (h : Run (start settings processors) moves c) : Queue moves c := by
  induction h with
  | nil => exact ⟨rfl, fun _ => rfl⟩
  | snoc _ hs ih => exact hs.queue ih

/-! ## Sleepers -/

/-- Who sleeps cannot go on, or a change is still to be told. -/
def Attentive (c : Traffic) : Prop :=
  ∀ v ∈ c.visits, v.stance = .asleep → c.untold ≠ 0 ∨ c.pool.Holds v.phase

theorem attentive_wake {c : Traffic} {vs : List Visit} (h : c.visits = vs.map Visit.wake) :
    c.Attentive := by
  intro v hv hs
  obtain ⟨u, -, rfl⟩ := List.mem_map.1 (h ▸ hv)
  exact absurd hs u.wake_not_asleep

theorem Step.attentive (h : Step c m c') (hs : c.pool.Sound c.visits) (hc : c.Attentive) :
    c'.Attentive := by
  cases h with
  | come | skip =>
    intro w hw hsleep
    rcases List.mem_append.1 hw with hw | hw
    · refine (hc w hw hsleep).imp_right fun hh => hh.congr rfl rfl rfl rfl rfl fun _ => rfl
    · rw [List.mem_singleton.1 hw] at hsleep
      cases hsleep
  | @visit i e v v' p hi hv =>
    have hch := hv.change
    by_cases he : e.IsNews
    · cases e with
      | dispatched | withdrawn => exact attentive_wake rfl
      | freed => exact fun _ _ _ => Or.inl (Nat.succ_ne_zero _)
      | _ => cases he
    · have hpass : c.pass i e p v' = { c with pool := p, visits := c.visits.set i v' } := by
        cases e with
        | dispatched | withdrawn | freed => exact absurd trivial he
        | _ => rfl
      rw [hpass]
      intro w hw hsleep
      rcases List.mem_or_eq_of_mem_set hw with hw | rfl
      · refine (hc w hw hsleep).imp_right fun hh => hch.holds he hh fun t ht => ?_
        obtain ⟨j, hj⟩ := List.mem_iff_getElem?.1 hw
        exact hs.tickets.used_of hj ht
      · exact Or.inr (hch.holds_of_asleep hsleep)
  | tell | cancel | close => exact attentive_wake rfl
  | @stir i v =>
    intro w hw hsleep
    rcases List.mem_or_eq_of_mem_set hw with hw | rfl
    · exact hc w hw hsleep
    · exact absurd hsleep v.wake_not_asleep
  | drain _ hd =>
    obtain ⟨-, rfl, -⟩ := Pool.drain?_eq_some_iff.1 hd
    intro w hw hsleep
    refine (hc w hw hsleep).imp_right fun hh => hh.congr rfl rfl rfl ?_ rfl fun s => ?_
    · simp [Pool.limit]
    · simp [Pool.busy?, Function.comp_def]
  | stop =>
    intro w hw hsleep
    exact (hc w hw hsleep).imp_right fun hh => hh.congr rfl rfl rfl rfl rfl fun _ => rfl
  | rest | stirClosing | stopped => exact hc

theorem Run.attentive (h : Run (start settings processors) moves c) : c.Attentive := by
  induction h with
  | nil => exact fun v hv => by simp [start] at hv
  | snoc hr hs ih => exact hs.attentive hr.sound ih

/-! ## Nobody is held back -/

/-- It is so, or will be once the next change is told. -/
def Soon (c : Traffic) (q : Traffic → Prop) : Prop := q c ∨ ∃ c', Step c .tell c' ∧ q c'

theorem Soon.mono {q r : Traffic → Prop} (h : c.Soon q) (hqr : ∀ c', q c' → r c') : c.Soon r :=
  h.imp (hqr c) fun ⟨c', hs, hq⟩ => ⟨c', hs, hqr c' hq⟩

/-- Who does not have to wait is awake soon. -/
theorem Attentive.soon (h : c.Attentive) {i : Nat} {v : Visit} (hi : c.visits[i]? = some v)
    (hcall : ∀ l, v.stance ≠ .calling l) (hv : ¬ c.pool.Holds v.phase) :
    c.Soon fun c' => c'.pool = c.pool ∧ c'.visits[i]? = some ⟨v.id, v.phase, .awake⟩ := by
  obtain ⟨id, ph, stance⟩ := v
  cases stance with
  | awake => exact Or.inl ⟨rfl, hi⟩
  | calling l => exact absurd rfl (hcall l)
  | asleep =>
    have huntold := (h _ (List.mem_of_getElem? hi) rfl).resolve_right hv
    obtain ⟨n, hn⟩ := Nat.exists_eq_succ_of_ne_zero huntold
    refine Or.inr ⟨_, .tell hn, rfl, ?_⟩
    change (c.visits.map Visit.wake)[i]? = _
    rw [List.getElem?_map, hi]
    rfl

/-- Visit `i` waits for a slot with this ticket. -/
def Queued (c : Traffic) (i t : Nat) : Prop :=
  ∃ v, c.visits[i]? = some v ∧ v.phase.ticket? = some t

/-- How a pool serves those who wait for it. -/
structure Orderly (settings : PoolSettings) (processors : Nat) (moves : List Move)
    (c : Traffic) : Prop where
  bounded : c.visits.countP (·.phase.isAdmitted) ≤
    settings.workers processors + settings.queueCapacity.toNat
  /-- Tickets are drawn one after the other. -/
  drawn : moves.filterMap Move.drawn? = List.range c.pool.nextTicket
  /-- Slots were given out in the order of the tickets. -/
  served : moves.filterMap Move.served? ++ c.pool.waiting = List.range c.pool.nextTicket
  waiting : ∀ t, t ∈ c.pool.waiting ↔ ∃ i, c.Queued i t
  /-- With an idle slot the oldest ticket can be served. -/
  front : ∀ i t s, c.Queued i t → (∀ j u, c.Queued j u → t ≤ u) → c.pool.Idle s →
    c.Soon fun c' => ∃ slot c'', Step c' (.visit i (.dispatched t slot)) c''
  /-- Nobody waits for admission if nobody is admitted. -/
  door : ∀ (i : Nat) (v : Visit) (item : Item), c.visits[i]? = some v →
    v.phase = .registered item → (∀ w ∈ c.visits, w.phase.isAdmitted = false) →
    c.pool.closing = false → c.Soon fun c' => ∃ t c'', Step c' (.visit i (.admitted t)) c''
  /-- Nobody waits for admission to a closed pool. -/
  closed : ∀ (i : Nat) (v : Visit) (item : Item), c.visits[i]? = some v →
    v.phase = .registered item → c.pool.closing = true →
    c.Soon fun c' => ∃ c'' why, Step c' (.visit i .inner) c'' ∧
      c''.visits[i]? = some ⟨v.id, .done (.failed item.id .rejected why), .awake⟩

/-- The oldest ticket is the front of the queue. -/
theorem front_of_oldest (hs : c.pool.Sound c.visits) {i t : Nat} (hi : c.Queued i t)
    (hold : ∀ j u, c.Queued j u → t ≤ u) : c.pool.waiting.head? = some t := by
  obtain ⟨v, hi, hv⟩ := hi
  have ht := hs.tickets.used_of hi hv
  cases hw : c.pool.waiting with
  | nil => simp [hw] at ht
  | cons u rest =>
    obtain ⟨j, w, hj, hu⟩ := (hs.tickets.used_iff u).1 (by simp [hw])
    have hle := hold j u ⟨w, hj, hu⟩
    have hlt := (List.pairwise_cons.1 (hw ▸ hs.ascending)).1
    rw [hw] at ht
    rcases List.mem_cons.1 ht with rfl | ht
    · rfl
    · exact absurd (hlt t ht) (Nat.not_lt.2 hle)

/-- **Without `cancel` items are served in the order of their tickets, and nobody is held
    back.** -/
theorem run_in_turn (h : Run (start settings processors) moves c)
    (hcap : settings.workers processors + settings.queueCapacity.toNat < 2 ^ 64)
    (hcan : c.pool.cancelled = false) : Orderly settings processors moves c := by
  have hs := h.sound
  have hattentive := h.attentive
  have hcalm {i : Nat} {v : Visit} (hi : c.visits[i]? = some v)
      (hv : ∀ item s k, v.phase ≠ .calling item s k) (l : WorkerLink) : v.stance ≠ .calling l := by
    intro hl
    obtain ⟨item, s, k, hph⟩ := (hs.proper v (List.mem_of_getElem? hi)).calling l hl
    exact hv item s k hph
  constructor
  case bounded => exact hs.admitted ▸ h.admitted_le
  case drawn => exact h.queue.drawn
  case served => exact h.queue.served hcan
  case waiting =>
    intro t
    exact hs.tickets.used_iff t
  case front =>
    intro i t s hi hold hidle
    have hhead := front_of_oldest hs hi hold
    obtain ⟨⟨id, ph, stance⟩, hi, hv⟩ := hi
    obtain ⟨item, rfl⟩ := Phase.ticket?_eq_some_iff.1 hv
    have hfree : ¬ c.pool.Holds (.queued item t) := by
      rw [Pool.holds_queued_iff]
      rintro ⟨-, hne | hbusy⟩
      · exact hne hhead
      · exact hbusy s hidle
    refine (hattentive.soon hi (hcalm hi nofun) hfree).mono fun c' ⟨hp, hi'⟩ => ?_
    obtain ⟨⟨p', next⟩, hnext⟩ := Option.ne_none_iff_exists'.1 (hp ▸ hfree)
    rcases Visit.dispatch?_change id hnext with ⟨slot, rfl, -⟩ | ⟨r, -, hch⟩
    · exact ⟨slot, _, .visit hi' (.dispatch hnext)⟩
    · cases hch with
      | withdraw _ hc => simp [hp, hcan] at hc
  case door =>
    rintro i ⟨id, _, stance⟩ item hi rfl hnone hcl
    have hzero : c.pool.admitted = 0 := by
      rw [hs.admitted, List.countP_eq_zero]
      intro w hw
      simp [hnone w hw]
    have hlt : UInt64.ofNat c.pool.admitted < c.pool.limit := hzero ▸ h.limit_pos hcap
    have hfree : ¬ c.pool.Holds (.registered item) := by
      rw [Pool.holds_registered_iff]
      exact fun hh => hh.2.2 hlt
    refine (hattentive.soon hi (hcalm hi nofun) hfree).mono fun c' ⟨hp, hi'⟩ => ?_
    obtain ⟨⟨p', next⟩, hnext⟩ := Option.ne_none_iff_exists'.1 (hp ▸ hfree)
    rcases Visit.admit?_change id hnext with ⟨t, rfl, -⟩ | ⟨r, -, hch⟩
    · exact ⟨t, _, .visit hi' (.accept hnext)⟩
    · cases hch with
      | cancelAtDoor _ hc => simp [hp, hcan] at hc
      | closeAtDoor _ _ hc => simp [hp, hcl] at hc
  case closed =>
    rintro i ⟨id, _, stance⟩ item hi rfl hcl
    have hfree : ¬ c.pool.Holds (.registered item) := by
      rw [Pool.holds_registered_iff]
      simp [hcl]
    refine (hattentive.soon hi (hcalm hi nofun) hfree).mono fun c' ⟨hp, hi'⟩ => ?_
    obtain ⟨⟨p', next⟩, hnext⟩ := Option.ne_none_iff_exists'.1 (hp ▸ hfree)
    rcases Visit.admit?_change id hnext with ⟨t, -, hch⟩ | ⟨r, rfl, hch⟩
    · cases hch with
      | accept _ hc => simp [hp, hcl] at hc
    · cases hch with
      | cancelAtDoor _ hc => simp [hp, hcan] at hc
      | closeAtDoor why =>
        refine ⟨_, why, .visit hi' (.sendAway hnext), ?_⟩
        exact getElem?_set_same hi' _

/-- Someone sleeps while the slot is given back. -/
theorem run_in_turn_asleep : ∃ moves c, Run (start { size := 1 } 4) moves c ∧
    Orderly { size := 1 } 4 moves c ∧ c.pool.Idle 0 ∧ c.untold = 1 ∧
    c.visits.map (·.stance) = [.awake, .asleep] := by
  have come (id : UInt64) (c : Traffic) : Step c (.come ⟨id, [], []⟩ ⟨⟨id, [], []⟩, false⟩) _ :=
    .come rfl rfl
  have h₁ := (Run.nil (c := start { size := 1 } 4)).snoc (come 7 _)
  have h₂ := h₁.snoc (.visit (i := 0) rfl (.register rfl))
  have h₃ := h₂.snoc (.visit (i := 0) rfl (.accept rfl))
  have h₄ := h₃.snoc (.visit (i := 0) rfl (.dispatch rfl))
  have h₅ := h₄.snoc (come 8 _)
  have h₆ := h₅.snoc (.visit (i := 1) rfl (.register rfl))
  have h₇ := h₆.snoc (.visit (i := 1) rfl (.accept rfl))
  have h₈ := h₇.snoc (.visit (i := 1) rfl (.awaitSlot rfl))
  have h₉ := h₈.snoc (.visit (i := 0) rfl (.prepare rfl))
  have h₁₀ := h₉.snoc (.visit (i := 0) rfl (.launchFailed []))
  have h₁₁ := h₁₀.snoc (.visit (i := 0) rfl (.settle rfl))
  have h₁₂ := h₁₁.snoc (.visit (i := 0) rfl (.free rfl))
  exact ⟨_, _, h₁₂, run_in_turn h₁₂ (by decide) rfl, rfl, rfl, rfl⟩

end Traffic

end Rebuild
