/-
  An item that is alone in a pool.

  No item waits for others then, so nothing keeps it from its worker.  `Pool.Stage` says how far it
  is on its way and how many steps are left; `Alone.leads` is the step, `advance_reaches` the run,
  and `PoolRun.complete_alone` says that who waits for the item gets the answer of the worker.
-/
import Rebuild.Proofs.Worker.Queue
import Rebuild.Proofs.Worker.Staff
import Rebuild.Proofs.Worker.Unread

namespace Rebuild

/-! ## Pools without items -/

/-- No item is admitted, and an item that comes will find a place and a slot. -/
structure Pool.Free (p : Pool) : Prop where
  closing : p.closing = false
  limit : p.limit ≠ 0
  admitted : p.admitted = 0
  waiting : p.waiting = []
  idle : ∃ s, p.Idle s

namespace PoolRun

variable {W : Type} {r r' : PoolRun W} {i : Nat} {t : PoolTask} {settings : PoolSettings}
  {processors : Nat}

/-- Every item has its result. -/
def AllDone (r : PoolRun W) : Prop :=
  ∀ (i : Nat) (t : PoolTask), r.tasks[i]? = some t → ∃ result, t.phase = .done result

/-- **A pool without items is free**, and has no notes of any item. -/
theorem Reachable.free (h : r.Reachable settings processors) (hdone : r.AllDone)
    (hclosing : r.pool.closing = false) (hlimit : r.pool.limit ≠ 0) :
    r.pool.Free ∧ ∀ id, id ∉ r.pool.inFlight := by
  obtain ⟨moves, c, hrun, h⟩ := h.run
  have hvisits : ∀ v ∈ c.visits, ∃ result, v.phase = .done result := by
    intro v hv
    have hphase : v.phase ∈ r.tasks.toList.map (·.phase) := h.phases ▸ List.mem_map_of_mem hv
    obtain ⟨t, ht, hphase⟩ := List.mem_map.1 hphase
    obtain ⟨i, hi⟩ := List.mem_iff_getElem?.1 ht
    exact hphase ▸ hdone i t (Array.getElem?_toList ▸ hi)
  have hsound := hrun.sound
  rw [h.pool] at hsound
  -- no slot, no ticket and no note is that of a visit that is done
  have hnone {κ : Type} {used : κ → Prop} {key : Phase → Option κ}
      (howned : Owned used (fun v : Visit => key v.phase) c.visits)
      (hkey : ∀ result, key (.done result) = none) (k : κ) : ¬ used k := by
    intro hk
    obtain ⟨i, v, hi, hv⟩ := (howned.used_iff k).1 hk
    obtain ⟨result, hresult⟩ := hvisits v (List.mem_of_getElem? hi)
    simp [hresult, hkey] at hv
  refine ⟨⟨hclosing, hlimit, ?_, ?_, ?_⟩, fun id hid => ?_⟩
  · rw [hsound.admitted, List.countP_eq_zero]
    intro v hv
    obtain ⟨result, hresult⟩ := hvisits v hv
    simp [hresult, Phase.isAdmitted, Phase.ticket?, Phase.slot?]
  · exact List.eq_nil_iff_forall_not_mem.2 (hnone hsound.tickets fun _ => rfl)
  · have hslots : 0 < r.pool.slots.length := by
      rw [← h.pool, hrun.keeps.slots]
      simpa [Traffic.start, Pool.make] using settings.workers_pos processors
    have hbusy := hnone hsound.slots (fun _ => rfl) 0
    refine ⟨0, ?_⟩
    unfold Pool.Busy at hbusy
    unfold Pool.Idle
    rw [Pool.busy?, List.getElem?_eq_getElem hslots] at hbusy ⊢
    simpa using hbusy
  · obtain ⟨s, hs⟩ := Option.isSome_iff_exists.1 (Std.ExtTreeMap.isSome_getElem?_iff_mem.2 hid)
    exact hnone hsound.notes (fun _ => rfl) (id, s) hs

/-! ## The way of an item -/

end PoolRun

/-- A worker of this kind answers the item with this result in this world, over any link that is
    clean, and its comings and goings leave the world alone. -/
structure WorkerKind.Brings {W : Type} (kind : WorkerKind W) (w : W) (limit : Int) (item : Item)
    (result : WorkResult) : Prop where
  answer : result.IsAnswer
  launch : ∀ process fingerprint now, kind.launch w process fingerprint now = .ok w
  stop : ∀ process now, (kind.stop w process now).2 = w
  call : ∀ process now (l : WorkerLink), l.broken = false → l.Clean →
    ∃ time after, (kind.call w process item now).1.decide l item limit = some (time, result, after)

/-- The slot has a link that can be used. -/
def Pool.Staffed (p : Pool) (slot link : Nat) : Prop :=
  p.linkOf slot = some link ∧ ∃ l, p.links[link]? = some l ∧ l.broken = false

/-- How far the only item of a pool is on its way to a result, and how many steps are left. -/
inductive Pool.Stage (p : Pool) (item : Item) (result : WorkResult) : Nat → PoolTask → Prop
  | arrived {due : Nat} : p.Free → item.id ∉ p.inFlight →
      Stage p item result 12 ⟨.arrived item, some due, false, none⟩
  | registered {due : Nat} : p.Free →
      Stage p item result 11 ⟨.registered item, some due, false, none⟩
  | queued {due ticket : Nat} : p.waiting = [ticket] → (∃ s, p.Idle s) →
      Stage p item result 10 ⟨.queued item ticket, some due, false, none⟩
  | dispatched {due slot : Nat} : slot < p.slots.length →
      Stage p item result 9 ⟨.dispatched item slot, some due, false, none⟩
  | retiring {due slot link : Nat} {recycled : Bool} : slot < p.slots.length →
      Stage p item result 8 ⟨.retiring item slot link recycled, some due, false, none⟩
  | retired {due slot link : Nat} {recycled : Bool} : slot < p.slots.length →
      Stage p item result 7 ⟨.retiring item slot link recycled, some due, true, none⟩
  | launching {due slot : Nat} : slot < p.slots.length →
      Stage p item result 6 ⟨.launching item slot, some due, false, none⟩
  | ready {due slot link : Nat} : p.Staffed slot link →
      Stage p item result 5 ⟨.ready item slot, some due, false, none⟩
  | calling {due slot link : Nat} : p.Staffed slot link →
      Stage p item result 4 ⟨.calling item slot link, some due, false, none⟩
  | replied {due slot link started : Nat} {l after : WorkerLink} {reply : WorkerReply} :
      p.Staffed slot link → after.broken = false →
      Stage p item result 3 ⟨.calling item slot link, some due, true,
        some ⟨item, started, l, reply, some (result, after)⟩⟩
  | settling {due slot link : Nat} : p.Staffed slot link →
      Stage p item result 2 ⟨.settling slot result, some due, false, none⟩
  | freeing {due slot : Nat} :
      Stage p item result 1 ⟨.freeing slot result, some due, false, none⟩
  | done {due : Nat} : Stage p item result 0 ⟨.done result, some due, false, none⟩

theorem Pool.Stage.due {item : Item} {result : WorkResult} {p : Pool} {n : Nat} {t : PoolTask}
    (h : p.Stage item result n t) : t.due.isSome = true := by
  cases h <;> rfl

/-! ## What the pool does for it -/

/-- The pool has taken the item further on its way. -/
structure Onward (item : Item) (result : WorkResult) (n : Nat) (p : Pool) (next : Pool × Phase) :
    Prop where
  settings : next.1.settings = p.settings
  cancelled : next.1.cancelled = p.cancelled
  stage : ∃ m < n, ∀ due, next.1.Stage item result m ⟨next.2, some due, false, none⟩

namespace Pool

variable {p : Pool} {item : Item} {result : WorkResult} {slot link : Nat}

theorem Free.register (h : p.Free) (hcan : p.cancelled = false) (hnew : item.id ∉ p.inFlight) :
    Onward item result 12 p (p.register item) := by
  have hregister : p.register item =
      ({ p with inFlight := p.inFlight.insert item.id none }, .registered item) := by
    simp [Pool.register, hcan, h.closing, hnew]
  rw [hregister]
  exact ⟨rfl, rfl, 11, by decide, fun _ => .registered ⟨h.closing, h.limit, h.admitted, h.waiting,
    h.idle⟩⟩

theorem Free.admit? (h : p.Free) (hcan : p.cancelled = false) (item : Item)
    (result : WorkResult) :
    ∃ next, p.admit? item = some next ∧ Onward item result 11 p next := by
  have hplace : UInt64.ofNat p.admitted < p.limit := by
    rw [h.admitted]
    exact UInt64.pos_iff_ne_zero.2 h.limit
  cases hadmit : p.admit? item with
  | none => exact absurd hplace (Visit.admit?_eq_none_iff.1 hadmit).2.2
  | some next =>
    obtain ⟨p', next⟩ := next
    refine ⟨_, rfl, ?_⟩
    rcases Visit.admit?_change 0 hadmit with ⟨ticket, rfl, hch⟩ | ⟨r, rfl, hch⟩
    · cases hch
      exact ⟨rfl, rfl, 10, by decide, fun _ => .queued (by simp [h.waiting]) h.idle⟩
    · cases hch with
      | cancelAtDoor _ hc => simp [hcan] at hc
      | closeAtDoor _ _ hcl => simp [h.closing] at hcl

theorem onward_dispatch? {ticket : Nat} (hcan : p.cancelled = false)
    (hwaiting : p.waiting = [ticket]) (hidle : ∃ s, p.Idle s) (item : Item) (result : WorkResult) :
    ∃ next, p.dispatch? item ticket = some next ∧ Onward item result 10 p next := by
  cases hdispatch : p.dispatch? item ticket with
  | none =>
    obtain ⟨s, hs⟩ := hidle
    obtain ⟨-, hhead | hnone⟩ := Visit.dispatch?_eq_none_iff.1 hdispatch
    · simp [hwaiting] at hhead
    · exact absurd hs (pickSlot?_eq_none_iff.1 hnone s)
  | some next =>
    obtain ⟨p', next⟩ := next
    refine ⟨_, rfl, ?_⟩
    rcases Visit.dispatch?_change 0 hdispatch with ⟨slot, rfl, hch⟩ | ⟨r, rfl, hch⟩
    · cases hch with
      | dispatch _ _ hslot =>
        obtain ⟨x, hx, -⟩ := Option.map_eq_some_iff.1 (idle_of_pickSlot? hslot)
        have hlt := (List.getElem?_eq_some_iff.1 hx).1
        exact ⟨rfl, rfl, 9, by decide, fun _ => .dispatched (by simpa [updateSlot] using hlt)⟩
    · cases hch with
      | withdraw _ hc => simp [hcan] at hc

theorem onward_prepare (hcan : p.cancelled = false) (hslot : slot < p.slots.length) :
    Onward item result 9 p (p.prepare item slot) := by
  rcases hprepare : p.prepare item slot with ⟨p', next⟩
  have hch : Visit.Change p ⟨0, _, _⟩ _ p' ⟨0, next, _⟩ := Visit.prepare_change hprepare
  cases hch with
  | findCancelled _ hc => simp [hcan] at hc
  | findNone => exact ⟨rfl, rfl, 6, by decide, fun _ => .launching hslot⟩
  | findBroken =>
    exact ⟨rfl, rfl, 8, by decide, fun _ => .retiring (by simpa [updateSlot] using hslot)⟩
  | findUnfit =>
    exact ⟨rfl, rfl, 8, by decide, fun _ => .retiring (by simpa [updateSlot, count] using hslot)⟩
  | findFit _ hlink hl hb => exact ⟨rfl, rfl, 5, by decide, fun _ => .ready ⟨hlink, _, hl, hb⟩⟩

theorem onward_retired (hslot : slot < p.slots.length) :
    Onward item result 7 p (p.retired item slot link) :=
  ⟨rfl, rfl, 6, by decide, fun _ => .launching hslot⟩

theorem staffed_place (hcan : p.cancelled = false) (hslot : slot < p.slots.length)
    (process : Nat) (fingerprint : Text) :
    (p.place slot process fingerprint).Staffed slot p.links.length := by
  refine ⟨?_, ⟨process, fingerprint, 0, p.cancelled, false, []⟩, ?_, hcan⟩
  · rw [linkOf_place, if_pos rfl, List.getElem?_eq_getElem hslot]
    rfl
  · exact List.getElem?_concat_length

theorem onward_install (hcan : p.cancelled = false) (hslot : slot < p.slots.length)
    (process : Nat) : Onward item result 6 p (p.install item slot process) := by
  rw [install, if_neg (by simp [hcan])]
  exact ⟨rfl, rfl, 5, by decide, fun _ => .ready (staffed_place hcan hslot process _)⟩

theorem Staffed.fetch (h : p.Staffed slot link) :
    Onward item result 5 p (p.fetch item slot) := by
  rw [Pool.fetch, h.1]
  exact ⟨rfl, rfl, 4, by decide, fun _ => .calling h⟩

/-- A call that does not break the link leaves the slot its worker. -/
theorem Staffed.updateLink (h : p.Staffed slot link) {after : WorkerLink}
    (hafter : after.broken = false) : (p.updateLink link fun l =>
      { after with broken := after.broken || l.broken }).Staffed slot link := by
  obtain ⟨hlink, l, hl, hb⟩ := h
  exact ⟨hlink, { after with broken := after.broken || l.broken }, by simp [Pool.updateLink, hl],
    by simp [hafter, hb]⟩

theorem Staffed.settle (h : p.Staffed slot link) (hcan : p.cancelled = false)
    (hanswer : result.IsAnswer) : Onward item result 2 p (p.settle slot result) := by
  obtain ⟨hlink, l, hl, hb⟩ := h
  have hblame : p.blame result = result := by
    rcases Visit.blame_cases (p := p) (Or.inl hanswer) with ⟨hblame, -⟩ | ⟨hc, -⟩
    · exact hblame
    · simp [hcan] at hc
  rcases hsettle : p.settle slot result with ⟨p', next⟩
  have hch : Visit.Change p ⟨0, _, _⟩ _ p' ⟨0, next, _⟩ := Visit.settle_change hsettle
  cases hch with
  | settle =>
    rw [hblame]
    exact ⟨rfl, rfl, 1, by decide, fun _ => .freeing⟩
  | loseLast _ _ _ hc => simp [hcan] at hc
  | lose hlink' hl' hb' =>
    obtain rfl := Option.some.inj (hlink.symm.trans hlink')
    obtain rfl := Option.some.inj (hl.symm.trans hl')
    simp [hb] at hb'

theorem onward_free : Onward item result 1 p (p.free slot result) :=
  ⟨rfl, rfl, 0, by decide, fun _ => .done⟩

end Pool

/-! ## What its task does -/

namespace PoolRun

variable {W : Type} {kind : WorkerKind W} {w : W} {settings : PoolSettings} {item : Item}
  {result : WorkResult} {r r' : PoolRun W} {i n : Nat} {t : PoolTask}

/-- Item `i` is the only one that has no result, and is at a stage. -/
structure Alone (kind : WorkerKind W) (w : W) (settings : PoolSettings) (item : Item)
    (result : WorkResult) (i n : Nat) (r : PoolRun W) : Prop where
  kind : r.kind = kind
  tidy : r.Tidy
  settings : r.pool.settings = settings
  cancelled : r.pool.cancelled = false
  /-- The world is as it was until the worker is called. -/
  world : 3 < n → r.world = w
  mine : ∃ t, r.tasks[i]? = some t ∧ r.pool.Stage item result n t
  others : ∀ (j : Nat) (t : PoolTask), j ≠ i → r.tasks[j]? = some t →
    ∃ result, t.phase = .done result

/-- Who has a slot is not waiting for others. -/
theorem wake_eq (h : ∀ (i : Nat) (t : PoolTask), r.tasks[i]? = some t →
    ∀ item ticket, t.phase ≠ .registered item ∧ t.phase ≠ .queued item ticket) : r.wake = r := by
  have htasks : r.wake.tasks = r.tasks := by
    refine Array.ext_getElem? fun i => ?_
    change (r.tasks.map _)[i]? = _
    rw [Array.getElem?_map]
    cases ht : r.tasks[i]? with
    | none => rfl
    | some t =>
      have hphase := h i t ht
      obtain ⟨phase, due, waiting, call⟩ := t
      cases phase with
      | registered item => exact absurd rfl (hphase item 0).1
      | queued item ticket => exact absurd rfl (hphase item ticket).2
      | _ => rfl
  exact congrArg (fun tasks => { r with tasks }) htasks

/-- What a step does to the only item without a result. -/
structure Leads (w : W) (item : Item) (result : WorkResult) (i n : Nat) (r r' : PoolRun W) :
    Prop where
  settings : r'.pool.settings = r.pool.settings
  cancelled : r'.pool.cancelled = r.pool.cancelled
  mine : ∃ m < n, ∃ t, r'.tasks = r.tasks.setIfInBounds i t ∧ r'.pool.Stage item result m t ∧
    (3 < m → r'.world = w)

/-- The next phase of the item. -/
theorem Leads.enter {next : Pool × Phase} (hnext : Onward item result n r.pool next)
    (htasks : r'.tasks = r.tasks) (hworld : 3 < n → r'.world = w) :
    Leads w item result i n r (r'.enter i next) := by
  obtain ⟨m, hm, hstage⟩ := hnext.stage
  exact ⟨hnext.settings, hnext.cancelled, m, hm, _, congrArg (Array.setIfInBounds · i _) htasks,
    hstage _, fun h => hworld (Nat.lt_trans h hm)⟩

/-- The worker that was taken out is given time. -/
theorem Leads.retire {slot link : Nat} (hslot : slot < r.pool.slots.length)
    (hpool : r'.pool = r.pool) (htasks : r'.tasks = r.tasks) (hworld : r'.world = w)
    (recycled : Bool) (millis : Nat) :
    Leads w item result i 8 r (r'.pause i (.retiring item slot link recycled) millis) :=
  ⟨congrArg Pool.settings hpool, congrArg Pool.cancelled hpool, 7, by decide, _,
    congrArg (Array.setIfInBounds · i _) htasks,
    .retired (show slot < r'.pool.slots.length from hpool ▸ hslot), fun _ => hworld⟩

theorem stopWorker_world (h : ∀ process now, (r.kind.stop r.world process now).2 = r.world)
    (link : Nat) : (r.stopWorker link).2.world = r.world := by
  unfold stopWorker
  cases r.pool.links[link]? with
  | none => rfl
  | some l =>
    simp only
    split_ifs
    · rfl
    · exact h _ _

namespace Alone

/-- Behind the queue nobody is to be woken. -/
theorem wake (h : Alone kind w settings item result i n r) (hn : n ≤ 10)
    (hleads : Leads w item result i n r r') : Leads w item result i n r r'.wake := by
  obtain ⟨m, hm, t, htasks, hstage, -⟩ := hleads.mine
  rw [wake_eq]
  · exact hleads
  · intro j u hu item' ticket
    rw [htasks, Array.getElem?_setIfInBounds] at hu
    split_ifs at hu with hij
    · cases hu
      cases hstage with
      | arrived | registered | queued => omega
      | _ => simp
    · obtain ⟨result', hdone⟩ := h.others j u (Ne.symm hij) hu
      simp [hdone]

/-- The worker is called. -/
theorem call (h : Alone kind w settings item result i 4 r)
    (hbrings : kind.Brings w settings.callLimit item result) {slot link due : Nat}
    (hstaffed : r.pool.Staffed slot link) :
    Leads w item result i 4 r (r.step i ⟨.calling item slot link, some due, false, none⟩) := by
  obtain ⟨hlink, l, hl, hb⟩ := hstaffed
  obtain ⟨time, after, hdecide⟩ :=
    hbrings.call l.process r.now l hb (h.tidy.pool l (List.mem_of_getElem? hl))
  have hafter : after.broken = false := by
    obtain ⟨limit, x, hcall⟩ := WorkerReply.call_of_decide hdecide
    cases WorkerLink.called_of_call hcall with
    | answered => exact hb
    | lost _ hr => exact absurd hbrings.answer hr.not_isAnswer
  have hbegin : r.beginCall i slot item link l = { r.setTask i ⟨.calling item slot link,
      some (r.now + time), true, some ⟨item, r.now, l, (kind.call w l.process item r.now).1,
        some (result, after)⟩⟩ with world := (kind.call w l.process item r.now).2 } := by
    have hworld := h.world (by decide)
    simp only [beginCall, hb, h.kind, h.settings, hworld, Bool.false_eq_true, if_false, hdecide]
    rfl
  simp only [PoolRun.step, hl, hbegin]
  exact ⟨rfl, rfl, 3, by decide, _, rfl, .replied ⟨hlink, l, hl, hb⟩ hafter,
    fun h => absurd h (by decide)⟩

/-- **An item that is alone goes on**: each step takes it further on its way. -/
theorem leads (h : Alone kind w settings item result i n r)
    (hbrings : kind.Brings w settings.callLimit item result) (ht : r.tasks[i]? = some t)
    (hn : n ≠ 0) : Leads w item result i n r (r.step i t) := by
  obtain ⟨u, hu, hstage⟩ := h.mine
  obtain rfl : t = u := Option.some.inj (ht.symm.trans hu)
  have hcan := h.cancelled
  cases hstage with
  | arrived hfree hnew => exact .enter (hfree.register hcan hnew) rfl h.world
  | registered hfree =>
    obtain ⟨next, hadmit, hnext⟩ := hfree.admit? hcan item result
    simp only [PoolRun.step, hadmit]
    exact .enter hnext rfl h.world
  | queued hwaiting hidle =>
    obtain ⟨next, hdispatch, hnext⟩ := Pool.onward_dispatch? hcan hwaiting hidle item result
    simp only [PoolRun.step, hdispatch]
    exact h.wake (by decide) (.enter hnext rfl h.world)
  | dispatched hslot => exact .enter (Pool.onward_prepare hcan hslot) rfl h.world
  | @retiring _ slot link recycled hslot =>
    have hworld := h.world (by decide)
    simp only [PoolRun.step]
    cases recycled with
    | false => exact .retire hslot rfl rfl hworld _ _
    | true =>
      have hstop (r₁ : PoolRun W) (hkind : r₁.kind = r.kind) (hpool : r₁.pool = r.pool)
          (htasks : r₁.tasks = r.tasks) (hsame : r₁.world = r.world) :
          Leads w item result i 8 r ((r₁.stopWorker link).2.pause i
            (.retiring item slot link true) (r₁.stopWorker link).1) := by
        obtain ⟨hpool', htasks'⟩ := r₁.stopWorker_frame link
        refine .retire hslot (hpool'.trans hpool) (htasks'.trans htasks) ?_ _ _
        rw [stopWorker_world, hsame, hworld]
        rw [hkind, h.kind, hsame, hworld]
        exact hbrings.stop
      simp only [Bool.false_eq_true, if_false, if_true]
      split <;> exact hstop _ rfl rfl rfl rfl
  | retired hslot => exact .enter (Pool.onward_retired hslot) rfl h.world
  | @launching _ slot hslot =>
    simp only [PoolRun.step]
    have hlaunch : r.launch item.fingerprint =
        .ok (r.nextProcess, { r with world := w, nextProcess := r.nextProcess + 1 }) := by
      rw [PoolRun.launch, h.kind, h.world (by decide), hbrings.launch]
      rfl
    rw [hlaunch]
    exact .enter (Pool.onward_install hcan hslot _) rfl fun _ => rfl
  | ready hstaffed => exact .enter hstaffed.fetch rfl h.world
  | calling hstaffed => exact h.call hbrings hstaffed
  | replied hstaffed hafter =>
    exact .enter ⟨rfl, rfl, 2, by decide, fun _ => .settling (hstaffed.updateLink hafter)⟩ rfl
      h.world
  | settling hstaffed => exact .enter (hstaffed.settle hcan hbrings.answer) rfl h.world
  | freeing => exact h.wake (by decide) (.enter Pool.onward_free rfl h.world)
  | done => exact absurd rfl hn

end Alone

/-! ## Until it is done -/

/-- The number of items that will look whether they can go on. -/
def restless (r : PoolRun W) : Nat := r.tasks.toList.countP (·.due.isSome)

theorem restless_le (r : PoolRun W) : r.restless ≤ r.tasks.size :=
  Nat.le_trans List.countP_le_length (Nat.le_of_eq Array.length_toList)

/-- A run goes on long enough for an item that is alone. -/
theorem restless_lt_bound (r : PoolRun W) : 12 + r.restless < r.bound := by
  have hle := r.restless_le
  have hmul : 40 * (r.tasks.size + 1) ≤ r.bound := Nat.le_mul_of_pos_right _ (Nat.succ_pos _)
  omega

theorem restless_set {u : PoolTask} (ht : r.tasks[i]? = some t)
    (htasks : r'.tasks = r.tasks.setIfInBounds i u) :
    r'.restless + (if t.due.isSome then 1 else 0) =
      r.restless + if u.due.isSome then 1 else 0 := by
  rw [restless, restless, htasks, Array.toList_setIfInBounds]
  exact countP_set_of_some (Array.getElem?_toList ▸ ht) u (·.due.isSome)

namespace Alone

/-- The item itself has taken a step. -/
theorem step_mine (h : Alone kind w settings item result i n r)
    (hbrings : kind.Brings w settings.callLimit item result) (ht : r.tasks[i]? = some t)
    (hn : n ≠ 0) : ∃ m < n, Alone kind w settings item result i m (r.step i t) ∧
      (r.step i t).restless = r.restless := by
  have hleads := h.leads hbrings ht hn
  obtain ⟨m, hm, u, htasks, hstage, hworld⟩ := hleads.mine
  have hlt := (Array.getElem?_eq_some_iff.1 ht).1
  refine ⟨m, hm, ⟨(r.step_kind i t).trans h.kind, h.tidy.step ht,
    hleads.settings.trans h.settings, hleads.cancelled.trans h.cancelled, hworld,
    ⟨u, by simp [htasks, hlt], hstage⟩, fun j v hj hv => ?_⟩, ?_⟩
  · rw [htasks, Array.getElem?_setIfInBounds, if_neg (Ne.symm hj)] at hv
    exact h.others j v hj hv
  · obtain ⟨v, hv, hbefore⟩ := h.mine
    obtain rfl : t = v := Option.some.inj (ht.symm.trans hv)
    have hcount := restless_set ht htasks
    rw [hbefore.due, hstage.due] at hcount
    omega

/-- An item that is done has seen that it cannot go on. -/
theorem step_other (h : Alone kind w settings item result i n r) {j : Nat} (hj : j ≠ i)
    (ht : r.tasks[j]? = some t) (hdue : t.due.isSome = true) :
    Alone kind w settings item result i n (r.step j t) ∧
      (r.step j t).restless + 1 = r.restless := by
  obtain ⟨result', hdone⟩ := h.others j t hj ht
  have hstep : r.step j t = r.block j t.phase := by rw [PoolRun.step, hdone]
  have htasks : (r.block j t.phase).tasks =
      r.tasks.setIfInBounds j ⟨t.phase, none, false, none⟩ := rfl
  have hcount := restless_set ht htasks
  have htidy := h.tidy.step ht
  rw [hstep] at htidy ⊢
  refine ⟨⟨h.kind, htidy, h.settings, h.cancelled, h.world, ?_, fun k v hk hv => ?_⟩, ?_⟩
  · obtain ⟨v, hv, hstage⟩ := h.mine
    refine ⟨v, ?_, hstage⟩
    change (r.tasks.setIfInBounds j _)[i]? = _
    rw [Array.getElem?_setIfInBounds, if_neg hj, hv]
  · change (r.tasks.setIfInBounds j _)[k]? = _ at hv
    rw [Array.getElem?_setIfInBounds] at hv
    split_ifs at hv with hjk
    · cases hv
      exact ⟨result', hdone⟩
    · exact h.others k v hk hv
  · rw [hdue] at hcount
    simpa using hcount

theorem result?_eq (h : Alone kind w settings item result i n r) :
    r.result? i = if n = 0 then some result else none := by
  obtain ⟨t, ht, hstage⟩ := h.mine
  rw [PoolRun.result?, ht]
  cases hstage <;> rfl

end Alone

/-- If an item is due, some item comes next. -/
theorem isSome_next? (ht : r.tasks[i]? = some t) (hdue : t.due.isSome = true) :
    r.next?.isSome = true := by
  -- the fold has something already, or will come to this task
  have hmem : (none : Option (Nat × Nat × PoolTask)).isSome = true ∨
      (t, i) ∈ r.tasks.toList.zipIdx :=
    Or.inr (List.mem_zipIdx_iff_getElem?.2 (Array.getElem?_toList ▸ ht))
  rw [next?]
  generalize r.tasks.toList.zipIdx = xs at hmem
  generalize (none : Option (Nat × Nat × PoolTask)) = best at hmem
  induction xs generalizing best with
  | nil => exact hmem.resolve_right List.not_mem_nil
  | cons x xs ih =>
    refine ih _ ?_
    rcases hmem with hbest | hx
    · left
      simp only
      split
      · exact hbest
      · rfl
      · split_ifs <;> rfl
    · rcases List.mem_cons.1 hx with rfl | hx
      · left
        simp only
        split
        · next hnone => simp [hnone] at hdue
        · rfl
        · split_ifs <;> rfl
      · exact Or.inr hx

/-- **Steps that lead somewhere come to a goal**: as long as it is not reached, some item goes on,
    with fewer steps left. -/
theorem advance_reaches {goal : PoolRun W → Bool} {left : Nat → PoolRun W → Prop}
    (hstep : ∀ n r, left n r → goal r = false → ∃ due i t, r.next? = some (due, i, t) ∧
      ∃ m < n, left m (({ r with now := max r.now due } : PoolRun W).step i t))
    {bound : Nat} (h : left n r) (hn : n < bound) :
    goal (r.advance bound goal none) = true ∧ ∃ m, left m (r.advance bound goal none) := by
  induction bound generalizing n r with
  | zero => exact absurd hn (Nat.not_lt_zero _)
  | succ bound ih =>
    unfold PoolRun.advance
    cases hgoal : goal r with
    | true => exact ⟨hgoal, n, h⟩
    | false =>
      obtain ⟨due, i, t, hnext, m, hm, hleft⟩ := hstep n r h hgoal
      simp only [Bool.false_eq_true, if_false, hnext, Option.any_none]
      exact ih hleft (Nat.lt_of_lt_of_le hm (Nat.lt_succ_iff.1 hn))

/-- Item `i` is alone, and so many steps are left, those of others that are restless included. -/
def Nearing (kind : WorkerKind W) (w : W) (settings : PoolSettings) (item : Item)
    (result : WorkResult) (i n : Nat) (r : PoolRun W) : Prop :=
  ∃ m, Alone kind w settings item result i m r ∧ n = m + r.restless

/-- As long as the item has no result, there is a step and it leads further. -/
theorem Nearing.goes_on (h : Nearing kind w settings item result i n r)
    (hbrings : kind.Brings w settings.callLimit item result) (hr : (r.result? i).isSome = false) :
    ∃ due j t, r.next? = some (due, j, t) ∧
      ∃ m < n, Nearing kind w settings item result i m
        (({ r with now := max r.now due } : PoolRun W).step j t) := by
  obtain ⟨m, h, rfl⟩ := h
  have hm : m ≠ 0 := by
    rintro rfl
    simp [h.result?_eq] at hr
  obtain ⟨u, hu, hstage⟩ := h.mine
  obtain ⟨⟨due, j, t⟩, hnext⟩ := Option.isSome_iff_exists.1 (isSome_next? hu hstage.due)
  obtain ⟨ht, hdue⟩ := of_next? hnext
  have hnow : Alone kind w settings item result i m { r with now := max r.now due } :=
    ⟨h.kind, h.tidy.congr rfl h.tidy.pool rfl, h.settings, h.cancelled, h.world, h.mine, h.others⟩
  refine ⟨due, j, t, hnext, ?_⟩
  -- its own step takes the item further, any other one leaves fewer tasks restless
  by_cases hj : j = i
  · subst hj
    obtain ⟨k, hk, halone, hcount⟩ := hnow.step_mine hbrings ht hm
    refine ⟨_, ?_, k, halone, rfl⟩
    rw [hcount]
    exact Nat.add_lt_add_right hk _
  · obtain ⟨halone, hcount⟩ := hnow.step_other hj ht hdue
    refine ⟨_, Nat.add_lt_add_left ?_ m, m, halone, rfl⟩
    exact Nat.lt_of_lt_of_eq (Nat.lt_succ_self _) hcount

/-! ## Who waits for an item -/

section
variable {J : Type} {filter : Action J Dispatch} {processors : Nat}

theorem alone_submit (h : r.Reachable settings processors) (hdone : r.AllDone)
    (hcan : r.pool.cancelled = false) (hclosing : r.pool.closing = false)
    (hlimit : r.pool.limit ≠ 0) (hterse : r.kind.Terse) (hfilter : LeavesAlone filter item)
    (journal : J) (result : WorkResult) :
    Alone r.kind r.world settings item result r.tasks.size 12
      (r.submit filter journal item).2.2 := by
  obtain ⟨hfree, hnew⟩ := h.free hdone hclosing hlimit
  have hsettings : r.pool.settings = settings := by
    obtain ⟨moves, c, hrun, hfollows⟩ := h.run
    rw [← hfollows.pool]
    exact hrun.keeps.settings
  have htidy := (h.tidy hterse).submit filter journal item
  rw [submit_eq hfilter] at htidy ⊢
  refine ⟨rfl, htidy, hsettings, hcan, fun _ => rfl,
    ⟨_, Array.getElem?_push_size, .arrived hfree (hnew _)⟩, fun j t hj ht => ?_⟩
  change (r.tasks.push _)[j]? = some t at ht
  rw [Array.getElem?_push, if_neg hj] at ht
  exact hdone j t ht

/-- **Who waits for an item that is alone gets the answer of the worker.** -/
theorem complete_alone (h : r.Reachable settings processors) (hdone : r.AllDone)
    (hcan : r.pool.cancelled = false) (hclosing : r.pool.closing = false)
    (hlimit : r.pool.limit ≠ 0) (hterse : r.kind.Terse) (hfilter : LeavesAlone filter item)
    (journal : J) (hbrings : r.kind.Brings r.world settings.callLimit item result) :
    (r.complete filter journal item).1 = some result := by
  have halone := alone_submit h hdone hcan hclosing hlimit hterse hfilter journal result
  obtain ⟨hgoal, n, m, hend, -⟩ := advance_reaches
    (fun n r' h hr => Nearing.goes_on h hbrings hr) ⟨12, halone, rfl⟩ (restless_lt_bound _)
  have hresult := hend.result?_eq
  obtain rfl : m = 0 := by
    by_contra hm
    rw [hresult, if_neg hm] at hgoal
    cases hgoal
  exact hresult

end

end PoolRun

end Rebuild
