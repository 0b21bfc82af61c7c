/-
  What a step of a task does, said once.

  Either its visit goes on, or the task waits, or a call begins or ends (`PoolRun.Makes`);
  `PoolRun.step_cases` says that there is nothing else.  What holds of all steps, apart from the
  time they take, is proved by cases of this, and `advance_keeps` takes it to runs.
-/
import Rebuild.Proofs.Worker.PoolRun

namespace Rebuild

namespace PoolRun

variable {W : Type} {r r' : PoolRun W} {i : Nat} {t : PoolTask}

/-- What a step makes of the pool and of its task. -/
inductive Makes (r : PoolRun W) : PoolTask → Pool → PoolTask → Prop
  /-- Its visit goes on. -/
  | go {phase next : Phase} {due due' : Option Nat} {waiting : Bool} {call : Option OpenCall}
      {e : Visit.Event} {p : Pool} :
      Visit.Step r.pool ⟨0, phase, .awake⟩ e p ⟨0, next, .awake⟩ →
      (∀ link result, e ≠ .replied link result) →
      Makes r ⟨phase, due, waiting, call⟩ p ⟨next, due', false, none⟩
  /-- It waits, for others or for some time. -/
  | stay {phase : Phase} {due due' : Option Nat} {waiting waiting' : Bool}
      {call : Option OpenCall} :
      Makes r ⟨phase, due, waiting, call⟩ r.pool ⟨phase, due', waiting', none⟩
  /-- A worker is called, unless its link is broken. -/
  | call {item : Item} {slot link : Nat} {due due' : Option Nat} {waiting : Bool}
      {l : WorkerLink} {reply : WorkerReply} (limit : Int) :
      r.pool.links[link]? = some l →
      l.broken = true ∧ reply.printed = [] ∨
        reply = (r.kind.call r.world l.process item r.now).1 →
      Makes r ⟨.calling item slot link, due, waiting, none⟩ r.pool
        ⟨.calling item slot link, due', true,
          some ⟨item, r.now, l, reply, (reply.decide l item limit).map (·.2)⟩⟩
  /-- The call is over. -/
  | reply {item : Item} {slot link : Nat} {due due' : Option Nat} {waiting : Bool}
      {call : OpenCall} {result : WorkResult} {after : WorkerLink} :
      call.outcome = some (result, after) →
      Makes r ⟨.calling item slot link, due, waiting, some call⟩
        (r.pool.updateLink link fun l => { after with broken := after.broken || l.broken })
        ⟨.settling slot result, due', false, none⟩

/-- A step of task `i` has led here, but for those who look again because of it. -/
structure Stepped (r : PoolRun W) (i : Nat) (t : PoolTask) (r' : PoolRun W) : Prop where
  kind : r'.kind = r.kind
  makes : ∃ u, r.Makes t r'.pool u ∧ r'.tasks = r.tasks.setIfInBounds i u

namespace Stepped

theorem enter {phase : Phase} {due : Option Nat} {waiting : Bool} {call : Option OpenCall}
    {e : Visit.Event} {next : Pool × Phase}
    (hv : Visit.Step r.pool ⟨0, phase, .awake⟩ e next.1 ⟨0, next.2, .awake⟩)
    (he : ∀ link result, e ≠ .replied link result) (hkind : r'.kind = r.kind)
    (htasks : r'.tasks = r.tasks) :
    r.Stepped i ⟨phase, due, waiting, call⟩ (r'.enter i next) :=
  ⟨hkind, _, .go hv he, congrArg (Array.setIfInBounds · i _) htasks⟩

variable {phase : Phase} {due : Option Nat} {waiting : Bool} {call : Option OpenCall}

theorem block : r.Stepped i ⟨phase, due, waiting, call⟩ (r.block i phase) := ⟨rfl, _, .stay, rfl⟩

theorem pause {millis : Nat} (hkind : r'.kind = r.kind) (hpool : r'.pool = r.pool)
    (htasks : r'.tasks = r.tasks) :
    r.Stepped i ⟨phase, due, waiting, call⟩ (r'.pause i phase millis) := by
  refine ⟨hkind, _, ?_, congrArg (Array.setIfInBounds · i _) htasks⟩
  change r.Makes _ r'.pool _
  rw [hpool]
  exact .stay

/-- A call begins. -/
theorem beginCall {item : Item} {slot link : Nat} {l : WorkerLink}
    (hl : r.pool.links[link]? = some l) :
    r.Stepped i ⟨.calling item slot link, due, waiting, none⟩ (r.beginCall i slot item link l) := by
  refine ⟨rfl, _, .call r.pool.settings.callLimit hl ?_, rfl⟩
  cases hb : l.broken with
  | false => exact Or.inr rfl
  | true => exact Or.inl ⟨rfl, rfl⟩

end Stepped

theorem launch_kind {fingerprint : Text} {process : Nat}
    (h : r.launch fingerprint = .ok (process, r')) : r'.kind = r.kind := by
  unfold launch at h
  cases hw : r.kind.launch r.world r.nextProcess fingerprint r.now with
  | error why =>
    rw [hw] at h
    cases h
  | ok world =>
    rw [hw] at h
    cases h
    rfl

theorem stopWorker_kind (r : PoolRun W) (link : Nat) : (r.stopWorker link).2.kind = r.kind := by
  unfold stopWorker
  cases r.pool.links[link]? with
  | none => rfl
  | some l =>
    simp only
    split_ifs <;> rfl

/-- **There is nothing else that a step does.** -/
theorem step_cases (r : PoolRun W) (i : Nat) (t : PoolTask) :
    ∃ r', r.Stepped i t r' ∧ (r.step i t = r' ∨ r.step i t = r'.wake) := by
  obtain ⟨phase, due, waiting, call⟩ := t
  cases phase with
  | arrived item => exact ⟨_, .enter (.register rfl) (by simp) rfl rfl, Or.inl rfl⟩
  | registered item =>
    simp only [PoolRun.step]
    cases hadmit : r.pool.admit? item with
    | none => exact ⟨_, .block, Or.inl rfl⟩
    | some next =>
      obtain ⟨p, next⟩ := next
      rcases Visit.admit?_change 0 hadmit with ⟨ticket, rfl, -⟩ | ⟨result, rfl, -⟩
      · refine ⟨_, ?_, Or.inl rfl⟩
        exact .enter (.accept hadmit) (by simp) rfl rfl
      · refine ⟨_, ?_, Or.inl rfl⟩
        exact .enter (.sendAway hadmit) (by simp) rfl rfl
  | queued item ticket =>
    simp only [PoolRun.step]
    cases hdispatch : r.pool.dispatch? item ticket with
    | none => exact ⟨_, .block, Or.inl rfl⟩
    | some next =>
      obtain ⟨p, next⟩ := next
      rcases Visit.dispatch?_change 0 hdispatch with ⟨slot, rfl, -⟩ | ⟨result, rfl, -⟩
      · refine ⟨_, ?_, Or.inr rfl⟩
        exact .enter (.dispatch hdispatch) (by simp) rfl rfl
      · refine ⟨_, ?_, Or.inr rfl⟩
        exact .enter (.withdraw hdispatch) (by simp) rfl rfl
  | dispatched item slot => exact ⟨_, .enter (.prepare rfl) (by simp) rfl rfl, Or.inl rfl⟩
  | retiring item slot link recycled =>
    have hstop (r₁ : PoolRun W) (hkind : r₁.kind = r.kind) (hpool : r₁.pool = r.pool)
        (htasks : r₁.tasks = r.tasks) :
        r.Stepped i ⟨.retiring item slot link recycled, due, waiting, call⟩
          ((r₁.stopWorker link).2.pause i (.retiring item slot link recycled)
            (r₁.stopWorker link).1) := by
      obtain ⟨hpool', htasks'⟩ := r₁.stopWorker_frame link
      exact .pause ((r₁.stopWorker_kind link).trans hkind) (hpool'.trans hpool)
        (htasks'.trans htasks)
    simp only [PoolRun.step]
    split_ifs
    · have hv : Visit.Step r.pool ⟨0, .retiring item slot link recycled, .awake⟩ _
          (r.pool.retired item slot link).1 ⟨0, (r.pool.retired item slot link).2, .awake⟩ :=
        .retire rfl
      exact ⟨_, .enter hv (by simp) rfl rfl, Or.inl rfl⟩
    · refine ⟨_, ?_, Or.inl rfl⟩
      split <;> exact hstop _ rfl rfl rfl
    · exact ⟨_, .pause rfl rfl rfl, Or.inl rfl⟩
  | launching item slot =>
    simp only [PoolRun.step]
    cases hlaunch : r.launch item.fingerprint with
    | error why =>
      refine ⟨_, ?_, Or.inl rfl⟩
      exact .enter (.launchFailed why) (by simp) rfl rfl
    | ok launched =>
      obtain ⟨process, r'⟩ := launched
      have hkind := launch_kind hlaunch
      have htasks := launch_tasks hlaunch
      refine ⟨_, ?_, Or.inl rfl⟩
      exact .enter (.launch process rfl) (by simp) hkind htasks
  | ready item slot => exact ⟨_, .enter (.fetch rfl) (by simp) rfl rfl, Or.inl rfl⟩
  | calling item slot link =>
    simp only [PoolRun.step]
    split
    · refine ⟨_, ?_, Or.inl rfl⟩
      exact ⟨rfl, _, .reply rfl, rfl⟩
    · next l hl => exact ⟨_, .beginCall hl, Or.inl rfl⟩
    · exact ⟨_, .block, Or.inl rfl⟩
  | settling slot result => exact ⟨_, .enter (.settle rfl) (by simp) rfl rfl, Or.inl rfl⟩
  | burying slot link respawn result =>
    simp only [PoolRun.step]
    refine ⟨_, ?_, Or.inl rfl⟩
    split <;> exact .enter (.bury rfl) (by simp) rfl rfl
  | replacing slot fingerprint result =>
    simp only [PoolRun.step]
    cases hlaunch : r.launch fingerprint with
    | error why =>
      refine ⟨_, ?_, Or.inl rfl⟩
      exact .enter .replaceFailed (by simp) rfl rfl
    | ok launched =>
      obtain ⟨process, r'⟩ := launched
      refine ⟨_, ?_, Or.inl rfl⟩
      exact .enter (.replace process rfl) (by simp) (launch_kind hlaunch) (launch_tasks hlaunch)
  | freeing slot result => exact ⟨_, .enter (.free rfl) (by simp) rfl rfl, Or.inr rfl⟩
  | done result => exact ⟨_, .block, Or.inl rfl⟩

theorem step_kind (r : PoolRun W) (i : Nat) (t : PoolTask) : (r.step i t).kind = r.kind := by
  obtain ⟨r', hstepped, hr | hr⟩ := r.step_cases i t <;> rw [hr] <;> exact hstepped.kind

/-- **What each step keeps is kept** as long as tasks go on, if time has no part in it. -/
theorem advance_keeps {P : PoolRun W → Prop} (hnow : ∀ (r : PoolRun W) now, P r → P { r with now })
    (hstep : ∀ r i t, P r → r.tasks[i]? = some t → P (r.step i t)) (h : P r) (bound : Nat)
    (goal : PoolRun W → Bool) (horizon : Option Nat) : P (r.advance bound goal horizon) := by
  induction bound generalizing r with
  | zero => exact h
  | succ bound ih =>
    unfold PoolRun.advance
    split_ifs
    · exact h
    · split
      · exact hnow r _ h
      · next due i t hnext =>
        split_ifs
        · exact hnow r _ h
        · exact ih (hstep _ i t (hnow r _ h) (of_next? hnext).1)

theorem advance_kind (bound : Nat) (goal : PoolRun W → Bool) (horizon : Option Nat)
    (r : PoolRun W) : (r.advance bound goal horizon).kind = r.kind :=
  advance_keeps (P := fun r' => r'.kind = r.kind) (fun _ _ h => h)
    (fun r' i t h _ => (r'.step_kind i t).trans h) rfl bound goal horizon

/-! ## Items that a filter lets through -/

/-- The filter leaves the item as it is. -/
def LeavesAlone {J : Type} (filter : Action J Dispatch) (item : Item) : Prop :=
  ∀ j j' d, filter.execute j ⟨item, false⟩ = some (j', d) → d = ⟨item, false⟩

theorem submit_eq {J : Type} {filter : Action J Dispatch} {item : Item}
    (hfilter : LeavesAlone filter item) (journal : J) (r : PoolRun W) :
    (r.submit filter journal item).2.2 =
      { r with tasks := r.tasks.push ⟨.arrived item, some r.now, false, none⟩ } := by
  unfold PoolRun.submit
  rw [Action.getD_sift]
  cases hexecute : filter.execute journal ⟨item, false⟩ with
  | none => rfl
  | some out =>
    obtain ⟨journal', d⟩ := out
    obtain rfl : d = ⟨item, false⟩ := hfilter journal journal' d hexecute
    rfl

end PoolRun

end Rebuild
