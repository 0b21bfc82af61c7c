/-
  A pool at work is one of the pools that its users can come to.

  A task is as some visit (`PoolTask.Follows`), and what it does when it is due is nothing or
  the next steps of that visit.  So every state that the users of a `PoolRun` can come to is
  one that some moves come to (`PoolRun.Reachable.run`), and what holds after any moves holds
  there.
-/
import Rebuild.Proofs.Worker.Frame
import Rebuild.Proofs.Worker.Traffic
import Rebuild.Worker.PoolRun

namespace Rebuild

/-! ## Calls -/

namespace Inflow

/-- Nobody waits at a stream that has ended. -/
theorem take_of_closed {s : Inflow} (h : s.closed = true) (n : Nat) :
    (s.take n).1 ≠ .silent ∧ (s.take n).2.closed = true := by
  refine ⟨?_, h⟩
  rcases Nat.lt_or_ge s.size n with hn | hn
  · simp [take_of_lt hn, h]
  · obtain ⟨s', htake, -⟩ := take_of_le hn
    simp [htake]

end Inflow

theorem Frame.read_of_closed {s : Inflow} (h : s.closed = true) (p : Patience) :
    (Frame.read p s).1 ≠ .waiting := by
  unfold Frame.read
  split_ifs with hp
  · simp
  · obtain ⟨hsilent, hclosed⟩ := Inflow.take_of_closed h 4
    generalize s.take 4 = header at hsilent hclosed
    obtain ⟨_ | _ | _, s'⟩ := header
    · next header =>
      change (Frame.readBody p (leValue header) s').1 ≠ .waiting
      unfold Frame.readBody
      split_ifs with hn
      · simp
      · obtain ⟨hsilent, -⟩ := Inflow.take_of_closed hclosed (leValue header)
        generalize s'.take (leValue header) = body at hsilent
        obtain ⟨_ | _ | _, s''⟩ := body
        · simp
        · simp
        · exact absurd rfl hsilent
    · simp
    · exact absurd rfl hsilent

/-- Who calls a worker that ends does not wait for ever. -/
theorem WorkerLink.call_of_closed {x : Exchange} (h : x.closed = true) (l : WorkerLink)
    (item : Item) (limit : Int) : (l.call item limit x).isSome = true := by
  unfold call
  simp only
  split_ifs with hb
  · rfl
  · split
    · rfl
    · have hread := Frame.read_of_closed (s := ⟨l.unread ++ x.arriving, x.closed⟩) h (.ofInt limit)
      split
      · rfl
      · rfl
      · rfl
      · next hw =>
        rw [hw] at hread
        exact absurd rfl hread
    · rfl

namespace WorkerReply

variable {reply : WorkerReply} {l : WorkerLink} {item : Item}

/-- What is decided is a result of the call, by what was seen up to some time. -/
theorem seen_of_decide {limit : Int} {d : Nat × WorkResult × WorkerLink}
    (h : reply.decide l item limit = some d) :
    ∃ limit fits time, l.call item limit (reply.seen fits time) = some d.2 := by
  unfold decide at h
  simp only at h
  split at h
  · next out hnow =>
    obtain rfl := Option.some.inj h
    obtain ⟨t, -, ht⟩ := List.exists_of_findSome?_eq_some hnow
    split_ifs at ht with hw
    obtain ⟨out, hcall, rfl⟩ := Option.map_eq_some_iff.1 ht
    exact ⟨_, _, _, hcall⟩
  · split_ifs at h with hl
    obtain ⟨out, hcall, rfl⟩ := Option.map_eq_some_iff.1 h
    exact ⟨_, _, _, hcall⟩

theorem call_of_decide {limit : Int} {d : Nat × WorkResult × WorkerLink}
    (h : reply.decide l item limit = some d) : ∃ limit x, l.call item limit x = some d.2 := by
  obtain ⟨limit, fits, time, hcall⟩ := seen_of_decide h
  exact ⟨limit, _, hcall⟩

/-- A call that is cut short has a result. -/
theorem call_of_interrupted (reply : WorkerReply) (l : WorkerLink) (item : Item) (time : Nat) :
    ∃ out limit x, reply.interrupted l item time = some out ∧ l.call item limit x = some out := by
  obtain ⟨out, hout⟩ := Option.isSome_iff_exists.1 (WorkerLink.call_of_closed
    (x := { reply.seen true time with
      written := if (reply.seen true time).written = .timeout then .eof else
        (reply.seen true time).written
      closed := true
      exit := "signal 9" }) rfl l item (-1))
  exact ⟨out, _, _, hout, hout⟩

end WorkerReply

/-! ## Tasks as visits -/

namespace PoolTask

/-- A task is as a visit. -/
inductive Follows : PoolTask → Visit → Prop
  | awake {id : UInt64} {phase : Phase} {due : Option Nat} {waiting : Bool} :
      Follows ⟨phase, due, waiting, none⟩ ⟨id, phase, .awake⟩
  /-- Who sleeps is not due. -/
  | asleep {id : UInt64} {phase : Phase} {waiting : Bool} :
      Follows ⟨phase, none, waiting, none⟩ ⟨id, phase, .asleep⟩
  /-- Who calls is due only with a result. -/
  | calling {id : UInt64} {slot link : Nat} {due : Option Nat} {waiting : Bool}
      (call : OpenCall) :
      (∀ out, call.outcome = some out → ∃ limit x, call.link.call call.item limit x = some out) →
      (call.outcome = none → due = none) →
      Follows ⟨.calling call.item slot link, due, waiting, some call⟩
        ⟨id, .calling call.item slot link, .calling call.link⟩

variable {t : PoolTask} {v : Visit}

theorem Follows.phase (h : t.Follows v) : v.phase = t.phase := by
  cases h <;> rfl

end PoolTask

namespace PoolRun

variable {W : Type} {r r' : PoolRun W} {c c' : Traffic} {i : Nat} {t : PoolTask} {v : Visit}

/-- The pool at work is as the pool with all who use it; who closes it is awake. -/
structure Follows (r : PoolRun W) (c : Traffic) : Prop where
  pool : c.pool = r.pool
  tasks : List.Forall₂ PoolTask.Follows r.tasks.toList c.visits
  closings : c.closings.map Closing.wake = c.closings

/-- From `c` visits come to a pool that is as this one at work. -/
def Goes (c : Traffic) (r : PoolRun W) : Prop :=
  ∃ moves c', Traffic.Run c moves c' ∧ c'.closings = c.closings ∧ r.Follows c'

theorem Follows.goes (h : r.Follows c) : Goes c r := ⟨[], c, .nil, rfl, h⟩

theorem Goes.trans (h : Goes c r) (hr : ∀ c', r.Follows c' → Goes c' r') : Goes c r' := by
  obtain ⟨moves, c₁, hrun, hclosings, h⟩ := h
  obtain ⟨later, c₂, hlater, hclosings', h'⟩ := hr c₁ h
  exact ⟨_, c₂, hrun.append hlater, hclosings'.trans hclosings, h'⟩

namespace Follows

/-- World, time and log are not those of the pool. -/
theorem congr (h : r.Follows c) (hpool : r'.pool = r.pool) (htasks : r'.tasks = r.tasks) :
    r'.Follows c :=
  ⟨h.pool.trans hpool.symm, htasks ▸ h.tasks, h.closings⟩

theorem exists_visit (h : r.Follows c) (ht : r.tasks[i]? = some t) :
    ∃ v, c.visits[i]? = some v ∧ t.Follows v := by
  have hrel := h.tasks
  rw [← Array.getElem?_toList] at ht
  generalize r.tasks.toList = ts, c.visits = vs at hrel ht
  induction hrel generalizing i with
  | nil => simp at ht
  | cons hx _ ih =>
    cases i with
    | zero =>
      obtain rfl := Option.some.inj ht
      exact ⟨_, rfl, hx⟩
    | succ i => exact ih ht

/-- A task goes on as its visit. -/
theorem set (h : r.Follows c) (ht : t.Follows v) (p : Pool) (i : Nat) :
    Follows { r.setTask i t with pool := p } { c with pool := p, visits := c.visits.set i v } := by
  refine ⟨rfl, ?_, h.closings⟩
  have hrel := h.tasks
  change List.Forall₂ _ (r.tasks.setIfInBounds i t).toList _
  rw [Array.toList_setIfInBounds]
  generalize r.tasks.toList = ts, c.visits = vs at hrel
  induction hrel generalizing i with
  | nil => exact .nil
  | cons hx htail ih =>
    cases i with
    | zero => exact .cons ht htail
    | succ i => exact .cons hx (ih i)

theorem wake (h : r.Follows c) : r.wake.Follows c.wake := by
  refine ⟨h.pool, ?_, ?_⟩
  · change List.Forall₂ _ (r.tasks.map _).toList (c.visits.map Visit.wake)
    rw [Array.toList_map, List.forall₂_map_left_iff, List.forall₂_map_right_iff]
    refine h.tasks.imp fun t v ht => ?_
    cases ht with
    | @awake _ phase | @asleep _ phase => cases phase <;> exact .awake
    | calling call hout hdue => exact .calling call hout hdue
  · change (c.closings.map Closing.wake).map Closing.wake = c.closings.map Closing.wake
    rw [h.closings, h.closings]

/-- A step that nobody is told of. -/
theorem move (h : r.Follows c) (hi : c.visits[i]? = some v) {e : Visit.Event} {p : Pool}
    {v' : Visit} (hv : v.Step r.pool e p v') (ht : t.Follows v')
    (hquiet : c.pass i e p v' = { c with pool := p, visits := c.visits.set i v' })
    (hpool : r'.pool = p) (htasks : r'.tasks = r.tasks.setIfInBounds i t) : Goes c r' := by
  have hstep : Traffic.Step c _ _ := .visit hi (h.pool.symm ▸ hv)
  rw [hquiet] at hstep
  exact ⟨_, _, Traffic.Run.nil.snoc hstep, rfl, (h.set ht p i).congr hpool htasks⟩

/-- A step that all are told of. -/
theorem move_wake (h : r.Follows c) (hi : c.visits[i]? = some v) {e : Visit.Event} {p : Pool}
    {v' : Visit} (hv : v.Step r.pool e p v') (ht : t.Follows v')
    (hloud : c.pass i e p v' = Traffic.wake { c with pool := p, visits := c.visits.set i v' })
    (hpool : r'.pool = p) (htasks : r'.tasks = r.tasks.setIfInBounds i t) : Goes c r'.wake := by
  have hstep : Traffic.Step c _ _ := .visit hi (h.pool.symm ▸ hv)
  rw [hloud] at hstep
  exact ⟨_, _, Traffic.Run.nil.snoc hstep, h.closings,
    ((h.set ht p i).congr hpool htasks).wake⟩

/-- A task that only takes time. -/
theorem stay (h : r.Follows c) (hi : c.visits[i]? = some v) (ht : t.Follows v)
    (hpool : r'.pool = r.pool) (htasks : r'.tasks = r.tasks.setIfInBounds i t) : Goes c r' := by
  have hset := h.set ht r.pool i
  rw [set_same hi, ← h.pool] at hset
  exact (hset.congr (hpool.trans h.pool.symm) htasks).goes

end Follows

/-! ## Steps of tasks -/

theorem launch_tasks {fingerprint : Text} {process : Nat}
    (h : r.launch fingerprint = .ok (process, r')) : r'.tasks = r.tasks := by
  unfold launch at h
  cases hw : r.kind.launch r.world r.nextProcess fingerprint r.now with
  | error why =>
    rw [hw] at h
    cases h
  | ok world =>
    rw [hw] at h
    cases h
    rfl

theorem stopWorker_frame (r : PoolRun W) (link : Nat) :
    (r.stopWorker link).2.pool = r.pool ∧ (r.stopWorker link).2.tasks = r.tasks := by
  unfold stopWorker
  cases r.pool.links[link]? with
  | none => exact ⟨rfl, rfl⟩
  | some l =>
    simp only
    split_ifs <;> exact ⟨rfl, rfl⟩

/-- A call begins, and has a result only if the worker can come to it. -/
theorem beginCall_frame (r : PoolRun W) (i slot : Nat) (item : Item) (link : Nat)
    (l : WorkerLink) (id : UInt64) : ∃ t : PoolTask,
      t.Follows ⟨id, .calling item slot link, .calling l⟩ ∧
      (r.beginCall i slot item link l).pool = r.pool ∧
      (r.beginCall i slot item link l).tasks = r.tasks.setIfInBounds i t := by
  refine ⟨_, .calling ⟨item, r.now, l, _, Option.map _ _⟩ ?_ ?_, rfl, rfl⟩
  · intro out hout
    obtain ⟨d, hd, rfl⟩ := Option.map_eq_some_iff.1 hout
    exact WorkerReply.call_of_decide hd
  · intro hnone
    exact Option.map_eq_none_iff.2 (Option.map_eq_none_iff.1 hnone)

/-- **What a task does when it is due is what its visit does next.** -/
theorem Follows.step (h : r.Follows c) (ht : r.tasks[i]? = some t) (hdue : t.due.isSome = true) :
    Goes c (r.step i t) := by
  obtain ⟨v, hi, hv⟩ := h.exists_visit ht
  cases hv with
  | asleep => cases hdue
  | @calling id slot link due waiting call hout hnone =>
    obtain ⟨item, started, l, reply, outcome⟩ := call
    cases outcome with
    | none =>
      obtain rfl := hnone rfl
      cases hdue
    | some out =>
      obtain ⟨limit, x, hcall⟩ := hout out rfl
      exact h.move hi (.reply limit x hcall) .awake rfl rfl rfl
  | @awake id phase due waiting =>
    cases phase with
    | arrived item => exact h.move hi (.register rfl) .awake rfl rfl rfl
    | registered item =>
      simp only [PoolRun.step]
      cases hadmit : r.pool.admit? item with
      | none => exact h.move hi (.awaitPlace hadmit) .asleep rfl rfl rfl
      | some next =>
        obtain ⟨p, next⟩ := next
        rcases Visit.admit?_change id hadmit with ⟨ticket, rfl, -⟩ | ⟨result, rfl, -⟩
        · exact h.move hi (.accept hadmit) .awake rfl rfl rfl
        · exact h.move hi (.sendAway hadmit) .awake rfl rfl rfl
    | queued item ticket =>
      simp only [PoolRun.step]
      cases hdispatch : r.pool.dispatch? item ticket with
      | none => exact h.move hi (.awaitSlot hdispatch) .asleep rfl rfl rfl
      | some next =>
        obtain ⟨p, next⟩ := next
        rcases Visit.dispatch?_change id hdispatch with ⟨slot, rfl, -⟩ | ⟨result, rfl, -⟩
        · exact h.move_wake hi (.dispatch hdispatch) .awake rfl rfl rfl
        · exact h.move_wake hi (.withdraw hdispatch) .awake rfl rfl rfl
    | dispatched item slot => exact h.move hi (.prepare rfl) .awake rfl rfl rfl
    | retiring item slot link recycled =>
      simp only [PoolRun.step]
      split_ifs with hwaiting hrecycled
      · exact h.move hi (.retire rfl) .awake rfl rfl rfl
      · have hpause (r₁ : PoolRun W) (hpool : r₁.pool = r.pool) (htasks : r₁.tasks = r.tasks) :
            Goes c ((r₁.stopWorker link).2.pause i (.retiring item slot link recycled)
              (r₁.stopWorker link).1) := by
          obtain ⟨hp, ht⟩ := r₁.stopWorker_frame link
          exact h.stay hi .awake (hp.trans hpool)
            (congrArg (Array.setIfInBounds · i _) (ht.trans htasks))
        split <;> exact hpause _ rfl rfl
      · exact h.stay hi .awake rfl rfl
    | launching item slot =>
      simp only [PoolRun.step]
      cases hlaunch : r.launch item.fingerprint with
      | error why => exact h.move hi (.launchFailed why) .awake rfl rfl rfl
      | ok launched =>
        obtain ⟨process, r'⟩ := launched
        have htasks := launch_tasks hlaunch
        exact h.move hi (.launch process rfl) .awake rfl rfl
          (congrArg (Array.setIfInBounds · i _) htasks)
    | ready item slot => exact h.move hi (.fetch rfl) .awake rfl rfl rfl
    | calling item slot link =>
      simp only [PoolRun.step]
      cases hl : r.pool.links[link]? with
      | none => exact h.stay hi .awake rfl rfl
      | some l =>
        obtain ⟨t, ht, hpool, htasks⟩ := r.beginCall_frame i slot item link l id
        cases hb : l.broken with
        | false => exact h.move hi (.send hl hb) ht rfl hpool htasks
        | true => exact h.move hi (.keep hl hb) ht rfl hpool htasks
    | settling slot result => exact h.move hi (.settle rfl) .awake rfl rfl rfl
    | burying slot link respawn result =>
      simp only [PoolRun.step]
      split <;> exact h.move hi (.bury rfl) .awake rfl rfl rfl
    | replacing slot fingerprint result =>
      simp only [PoolRun.step]
      cases hlaunch : r.launch fingerprint with
      | error why => exact h.move hi .replaceFailed .awake rfl rfl rfl
      | ok launched =>
        obtain ⟨process, r'⟩ := launched
        have htasks := launch_tasks hlaunch
        exact h.move hi (.replace process rfl) .awake rfl rfl
          (congrArg (Array.setIfInBounds · i _) htasks)
    | freeing slot result =>
      have hv : Visit.Step c.pool ⟨id, .freeing slot result, .awake⟩ .freed _ _ := .free rfl
      have htold := (Traffic.Run.nil.snoc (.visit hi hv)).snoc (.tell rfl)
      rw [h.pool] at htold
      exact ⟨_, _, htold, h.closings, (h.set .awake _ i).wake⟩
    | done result => exact h.stay hi .awake rfl rfl

/-- Who comes next is due. -/
theorem of_next? {due : Nat} (h : r.next? = some (due, i, t)) :
    r.tasks[i]? = some t ∧ t.due.isSome = true := by
  have hmem : ∀ x ∈ r.tasks.toList.zipIdx, r.tasks[x.2]? = some x.1 := fun x hx => by
    rw [← Array.getElem?_toList]
    exact List.mem_zipIdx_iff_getElem?.1 hx
  have hbest (due i : Nat) (t : PoolTask) (h : none = some (due, i, t)) :
      r.tasks[i]? = some t ∧ t.due.isSome = true := nomatch h
  unfold next? at h
  generalize r.tasks.toList.zipIdx = xs at h hmem
  generalize (none : Option (Nat × Nat × PoolTask)) = best at h hbest
  induction xs generalizing best with
  | nil => exact hbest due i t h
  | cons x xs ih =>
    obtain ⟨u, j⟩ := x
    have hj : r.tasks[j]? = some u := hmem (u, j) List.mem_cons_self
    refine ih (fun y hy => hmem y (List.mem_cons_of_mem _ hy)) _ h fun due i t heq => ?_
    simp only at heq
    split at heq
    · exact hbest due i t heq
    · next hdue =>
      cases heq
      exact ⟨hj, by simp [hdue]⟩
    · next hdue =>
      split_ifs at heq <;> cases heq
      · exact ⟨hj, by simp [hdue]⟩
      · exact hbest _ _ _ rfl

/-- Visits come to whatever tasks come to. -/
theorem Follows.advance (h : r.Follows c) (bound : Nat) (goal : PoolRun W → Bool)
    (horizon : Option Nat) : Goes c (r.advance bound goal horizon) := by
  induction bound generalizing r c with
  | zero => exact h.goes
  | succ bound ih =>
    unfold PoolRun.advance
    split_ifs with hgoal
    · exact h.goes
    · split
      · exact Follows.goes (h.congr rfl rfl)
      · next due i t hnext =>
        split_ifs with hlate
        · exact Follows.goes (h.congr rfl rfl)
        · obtain ⟨ht, hdue⟩ := of_next? hnext
          have hnow : Follows { r with now := max r.now due } c := h.congr rfl rfl
          exact (hnow.step ht hdue).trans fun c' h' => ih h'

/-! ## What users do -/

/-- The filter leaves the numbers of items alone. -/
def KeepsIds {J : Type} (filter : Action J Dispatch) : Prop :=
  ∀ j d j' d', filter.execute j d = some (j', d') → d'.item.id = d.item.id

theorem Follows.submit {J : Type} (h : r.Follows c) {filter : Action J Dispatch}
    (hfilter : KeepsIds filter) (journal : J) (item : Item) :
    ∃ d c', Traffic.Step c (.come item d) c' ∧ (r.submit filter journal item).2.2.Follows c' := by
  obtain ⟨j, d, hd, hid⟩ : ∃ j d,
      (filter.execute journal ⟨item, false⟩).getD (journal, ⟨item, false⟩) = (j, d) ∧
        d.item.id = item.id := by
    cases hexecute : filter.execute journal ⟨item, false⟩ with
    | none => exact ⟨journal, ⟨item, false⟩, rfl, rfl⟩
    | some out => exact ⟨out.1, out.2, rfl, hfilter _ _ _ _ hexecute⟩
  have hfollows (next : Pool × Phase) : Follows
      { r with pool := next.1, tasks := r.tasks.push ⟨next.2, some r.now, false, none⟩ }
      (c.enter item.id next) := by
    refine ⟨rfl, ?_, h.closings⟩
    rw [Array.toList_push]
    exact List.rel_append h.tasks (.cons .awake .nil)
  unfold PoolRun.submit PoolRun.receive
  rw [Action.getD_sift, hd]
  cases hskip : d.skipped with
  | false =>
    refine ⟨d, _, .come hid hskip, ?_⟩
    simpa [hskip, h.pool] using hfollows (r.pool, .arrived d.item)
  | true =>
    refine ⟨d, _, .skip hid hskip, ?_⟩
    simpa [hskip, h.pool] using hfollows (r.pool.skip d.item.id)

theorem follows_cutShort (r : PoolRun W) (h : t.Follows v) (killed : List Nat) :
    (r.cutShort killed t).Follows v := by
  cases h with
  | @awake _ phase => cases phase <;> exact .awake
  | @asleep _ phase => cases phase <;> exact .asleep
  | @calling id slot link due waiting call hout hnone =>
    unfold PoolRun.cutShort
    simp only
    split_ifs with hkilled
    · obtain ⟨out, limit, x, hshort, hcall⟩ := WorkerReply.call_of_interrupted call.reply call.link
        call.item (r.now - call.started)
      refine .calling { call with outcome := call.reply.interrupted _ _ _ } ?_ ?_
      · intro out' hout'
        obtain rfl := Option.some.inj (hshort.symm.trans hout')
        exact ⟨limit, x, hcall⟩
      · intro hnone'
        cases hshort.symm.trans hnone'
    · exact .calling call hout hnone

theorem Follows.cancel (h : r.Follows c) :
    ∃ moves c', Traffic.Run c moves c' ∧ r.cancel.Follows c' := by
  unfold PoolRun.cancel
  split_ifs with hcan
  · exact ⟨[], c, .nil, h⟩
  · have hstep : Traffic.Step c .cancel _ := .cancel (by rw [h.pool]; simpa using hcan)
    rw [h.pool] at hstep
    have hshort : Follows { r with
        pool := r.pool.cancel
        tasks := r.tasks.map (r.cutShort r.pool.busyLinks) } { c with pool := r.pool.cancel } := by
      refine ⟨rfl, ?_, h.closings⟩
      rw [Array.toList_map, List.forall₂_map_left_iff]
      exact h.tasks.imp fun t v ht => follows_cutShort r ht _
    exact ⟨_, _, Traffic.Run.nil.snoc hstep, hshort.wake.congr rfl rfl⟩

/-- Who closes the pool is further. -/
theorem Follows.setClosing (h : r.Follows c) {cl : Closing} (hcl : cl.wake = cl) (i : Nat) :
    r.Follows { c with closings := c.closings.set i cl } := by
  refine ⟨h.pool, h.tasks, ?_⟩
  rw [List.map_set, h.closings, hcl]

/-- The workers that were taken out are stopped one after the other. -/
theorem Follows.stop {links : List Nat} (h : r.Follows c)
    (hi : c.closings[i]? = some (.stopping links)) : ∃ moves c', Traffic.Run c moves c' ∧
      Follows (links.foldl (fun r link =>
        let (time, r) := PoolRun.stopWorker r link
        { r with now := r.now + time, pool := r.pool.updateLink link WorkerLink.reap }) r) c' := by
  induction links generalizing r c with
  | nil => exact ⟨_, _, Traffic.Run.nil.snoc (.stopped hi), h.setClosing rfl i⟩
  | cons link links ih =>
    obtain ⟨hpool, htasks⟩ := r.stopWorker_frame link
    have hstopped : Follows { (r.stopWorker link).2 with
          now := (r.stopWorker link).2.now + (r.stopWorker link).1
          pool := (r.stopWorker link).2.pool.updateLink link WorkerLink.reap }
        { c with
          pool := c.pool.updateLink link WorkerLink.reap
          closings := c.closings.set i (.stopping links) } :=
      ⟨by rw [hpool, h.pool], htasks ▸ h.tasks, (h.setClosing rfl i).closings⟩
    have hi' : (c.closings.set i (.stopping links))[i]? = some (.stopping links) :=
      getElem?_set_same hi _
    obtain ⟨moves, c', hrun, h'⟩ := ih hstopped hi'
    exact ⟨_, c', (Traffic.Run.nil.snoc (.stop hi)).append hrun, h'⟩

theorem Follows.shutdown (h : r.Follows c) :
    ∃ moves c', Traffic.Run c moves c' ∧ r.shutdown.Follows c' := by
  have hclosed : Follows (PoolRun.wake { r with pool := r.pool.close })
      { c.wake with pool := c.pool.close, closings := c.wake.closings ++ [.waiting false] } := by
    refine ⟨congrArg Pool.close h.pool, h.wake.tasks, ?_⟩
    rw [List.map_append, h.wake.closings]
    rfl
  unfold PoolRun.shutdown
  simp only
  generalize PoolRun.wake { r with pool := r.pool.close } = r₁ at hclosed
  obtain ⟨moves, c₂, hrun, hclosings, h₂⟩ :=
    hclosed.advance r₁.bound (fun r => r.pool.admitted = 0) none
  have hrun₂ := (Traffic.Run.nil.snoc .close).append hrun
  change r₁.reach _ |>.Follows c₂ at h₂
  generalize r₁.reach (fun r => r.pool.admitted = 0) = r₂ at h₂
  split
  · exact ⟨_, c₂, hrun₂, h₂⟩
  · next p links hdrain =>
    have hi : c₂.closings[c.wake.closings.length]? = some (.waiting false) := by
      rw [hclosings]
      exact List.getElem?_concat_length
    have hdrained := hrun₂.snoc (.drain hi (h₂.pool ▸ hdrain))
    have h₃ : Follows { r₂ with pool := p } { c₂ with
        pool := p
        closings := c₂.closings.set c.wake.closings.length (.stopping links) } :=
      ⟨rfl, h₂.tasks, (h₂.setClosing rfl _).closings⟩
    obtain ⟨later, c₄, hlater, h₄⟩ := h₃.stop (getElem?_set_same hi _)
    refine ⟨_, c₄, hdrained.append hlater, ?_⟩
    split_ifs
    · exact h₄
    · exact h₄.congr rfl rfl

/-! ## All that users can come to -/

/-- What the users of a pool can come to.  In between the world changes, and others tell
    something. -/
inductive Reachable (settings : PoolSettings) (processors : Nat) : PoolRun W → Prop
  | start (kind : WorkerKind W) (world : W) :
      Reachable settings processors (start kind (.make settings processors) world)
  | submit {J : Type} {r : PoolRun W} {filter : Action J Dispatch} (journal : J) (item : Item) :
      Reachable settings processors r → KeepsIds filter →
      Reachable settings processors (r.submit filter journal item).2.2
  | advance {r : PoolRun W} (bound : Nat) (goal : PoolRun W → Bool) (horizon : Option Nat) :
      Reachable settings processors r →
      Reachable settings processors (r.advance bound goal horizon)
  | cancel {r : PoolRun W} : Reachable settings processors r →
      Reachable settings processors r.cancel
  | shutdown {r : PoolRun W} : Reachable settings processors r →
      Reachable settings processors r.shutdown
  | meanwhile {r : PoolRun W} (world : W) (log : List Log.Entry) :
      Reachable settings processors r → Reachable settings processors { r with world, log }

variable {settings : PoolSettings} {processors : Nat}

/-- **Whatever users can come to, some moves come to.** -/
theorem Reachable.run (h : r.Reachable settings processors) :
    ∃ moves c, Traffic.Run (.start settings processors) moves c ∧ r.Follows c := by
  induction h with
  | start => exact ⟨[], _, .nil, rfl, .nil, rfl⟩
  | submit journal item _ hfilter ih =>
    obtain ⟨moves, c, hrun, h⟩ := ih
    obtain ⟨d, c', hstep, h'⟩ := h.submit hfilter journal item
    exact ⟨_, c', hrun.snoc hstep, h'⟩
  | advance bound goal horizon _ ih =>
    obtain ⟨moves, c, hrun, h⟩ := ih
    obtain ⟨later, c', hlater, -, h'⟩ := h.advance bound goal horizon
    exact ⟨_, c', hrun.append hlater, h'⟩
  | cancel _ ih =>
    obtain ⟨moves, c, hrun, h⟩ := ih
    obtain ⟨later, c', hlater, h'⟩ := h.cancel
    exact ⟨_, c', hrun.append hlater, h'⟩
  | shutdown _ ih =>
    obtain ⟨moves, c, hrun, h⟩ := ih
    obtain ⟨later, c', hlater, h'⟩ := h.shutdown
    exact ⟨_, c', hrun.append hlater, h'⟩
  | meanwhile world log _ ih =>
    obtain ⟨moves, c, hrun, h⟩ := ih
    exact ⟨moves, c, hrun, h.congr rfl rfl⟩

theorem Follows.phases (h : r.Follows c) :
    c.visits.map (·.phase) = r.tasks.toList.map (·.phase) := by
  have hrel := h.tasks
  generalize r.tasks.toList = ts, c.visits = vs at hrel
  induction hrel with
  | nil => rfl
  | cons hx _ ih => rw [List.map_cons, List.map_cons, hx.phase, ih]

theorem task_of_result? {result : WorkResult} (hr : r.result? i = some result) :
    ∃ t, r.tasks[i]? = some t ∧ t.phase = .done result := by
  unfold result? at hr
  split at hr
  · next ht =>
    cases hr
    exact ⟨_, ht, rfl⟩
  · cases hr

theorem Follows.visit_of_result? (h : r.Follows c) {result : WorkResult}
    (hr : r.result? i = some result) : ∃ v, c.visits[i]? = some v ∧ v.phase = .done result := by
  obtain ⟨t, ht, hphase⟩ := task_of_result? hr
  obtain ⟨v, hv, hfollows⟩ := h.exists_visit ht
  exact ⟨v, hv, hfollows.phase.trans hphase⟩

/-- What a pool at work counts are its tasks. -/
theorem Reachable.counts (h : r.Reachable settings processors) :
    r.pool.admitted = (r.tasks.toList.map (·.phase)).countP Phase.isAdmitted ∧
      ∀ x, r.pool.stats.of x =
        (r.tasks.toList.map (·.phase)).countP fun phase => phase.tally? = some x := by
  obtain ⟨moves, c, hrun, h⟩ := h.run
  rw [← h.phases, ← h.pool]
  refine ⟨?_, fun x => ?_⟩
  · rw [hrun.sound.admitted, List.countP_map]
    rfl
  · rw [hrun.sound.tally, List.countP_map]
    rfl

/-- Who waits for the result of an item gets one with its number. -/
theorem Reachable.complete_id (h : r.Reachable settings processors) {J : Type}
    {filter : Action J Dispatch} (hfilter : KeepsIds filter) {journal : J} {item : Item}
    {result : WorkResult} (hresult : (r.complete filter journal item).1 = some result) :
    result.id = item.id := by
  obtain ⟨moves, c, hrun, h⟩ := h.run
  obtain ⟨d, c₁, hcome, h₁⟩ := h.submit hfilter journal item
  obtain ⟨later, c₂, hlater, -, h₂⟩ := h₁.advance (r.submit filter journal item).2.2.bound
    (fun r' => (r'.result? r.tasks.size).isSome) none
  obtain ⟨v, hv, hdone⟩ := h₂.visit_of_result? hresult
  have hid : v.id = item.id := by
    have hids := hlater.ids
    rw [hcome.ids] at hids
    have hi : (c₂.visits.map (·.id))[r.tasks.size]? = some v.id := by
      rw [List.getElem?_map, hv]
      rfl
    have hlen : (c.visits.map (·.id)).length = r.tasks.size := by
      rw [List.length_map, ← h.tasks.length_eq, Array.length_toList]
    rw [hids, List.append_assoc, ← hlen, List.getElem?_append_right (Nat.le_refl _)] at hi
    simpa [Traffic.Move.came?] using hi.symm
  have hsound := ((hrun.snoc hcome).append hlater).sound
  have hphase := (hsound.proper v (List.mem_of_getElem? hv)).id_eq
  rw [hdone] at hphase
  exact hphase.trans hid

end PoolRun

end Rebuild
