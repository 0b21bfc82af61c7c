/-
  Values come from workers.

  An item that goes through a pool of terse workers is answered with a value only if that is what a
  worker says in the world in which it is called for the item (`PoolRun.complete_given`), whatever
  other items are on their way.
-/
import Rebuild.Proofs.Worker.Unread

namespace Rebuild

variable {W : Type} {kind : WorkerKind W} {S : W → Prop} {item : Item} {value : Text}

/-! ## One call -/

/-- In one of these worlds a worker answers the item with this value, and with nothing else. -/
def WorkerKind.Gives (kind : WorkerKind W) (S : W → Prop) (item : Item) (value : Text) : Prop :=
  ∃ w, S w ∧ ∃ process now millis id, ∃ body : Text, body.length ≤ maxFrame ∧
    (kind.call w process item now).1.printed = [(millis, Frame.encode body)] ∧
    Response.decode? body = some ⟨.ok, id, value⟩

/-- If the result is a value, then a worker gave it in one of these worlds. -/
def WorkResult.Given (kind : WorkerKind W) (S : W → Prop) (item : Item) (r : WorkResult) : Prop :=
  ∀ value, r.outcome = .answered value → kind.Gives S item value

/-- A compile worker gives what its machine comes to. -/
theorem WorkerKind.Gives.compile {S : Workplace → Prop} {limit : Int} {settings : PoolSettings}
    (h : (compiling limit settings).Gives S item value) :
    ∃ w, S w ∧ (w.machine.compile limit item.payload).1 = .ok value := by
  obtain ⟨w, hw, process, now, millis, id, body, hbody, hprinted, hdecode⟩ := h
  refine ⟨w, hw, ?_⟩
  replace hprinted : (WorkerReply.ofResponse (w.machine.compile limit item.payload).2.1
      (WorkerLoop.response item.id (w.machine.compile limit item.payload).1)).printed =
        [(millis, Frame.encode body)] := hprinted
  generalize (w.machine.compile limit item.payload).1 = answer at hprinted ⊢
  unfold WorkerReply.ofResponse at hprinted
  split_ifs at hprinted with hfits
  have hframes := congrArg (· ++ ([] : Text)) (Prod.mk.inj (List.cons.inj hprinted).1).2
  obtain ⟨rfl, -⟩ := Frame.encode_append_inj (of_decide_eq_true hfits) hbody hframes
  rw [Response.decode?_encode _ hbody] at hdecode
  split_ifs at hdecode
  cases answer with
  | ok v => cases hdecode; rfl
  | error message => cases hdecode

namespace WorkResult

theorem given_failed (id : UInt64) (failure : FailureKind) (message : Text) :
    (failed id failure message).Given kind S item := by
  rintro value ⟨⟩

theorem given_of_isLoss {r : WorkResult} (h : r.IsLoss) : r.Given kind S item :=
  fun _ hvalue => absurd (by simp [IsAnswer, hvalue]) h.not_isAnswer

theorem Given.blame {r : WorkResult} (h : r.Given kind S item) (p : Pool) :
    (p.blame r).Given kind S item := by
  unfold Pool.blame
  split
  · split_ifs
    · exact given_failed _ _ _
    · exact h
  · exact h

/-- A call over a clean link brings a value only if the worker gave it. -/
theorem given_of_call {l after : WorkerLink} {limit : Int} {r : WorkResult} {w : W}
    {process now time : Nat} {fits : Bool} (hw : S w) (hl : l.Clean) (hterse : kind.Terse)
    (h : l.call item limit ((kind.call w process item now).1.seen fits time) = some (r, after)) :
    r.Given kind S item := by
  intro value hvalue
  have hanswer : r.IsAnswer := by simp [IsAnswer, hvalue]
  obtain ⟨body, response, hbody, hbytes, hdecode, rfl, -⟩ :=
    hl.answer ((hterse w process item now).seen fits time) h hanswer
  have hsome := Frame.encode_ne_nil hbody
  -- the frame that was read is the one that was printed
  have hprinted : ∃ millis, (kind.call w process item now).1.printed =
      [(millis, Frame.encode body)] := by
    rcases hterse w process item now with hprinted | ⟨millis, _, _, hprinted⟩
    · exact absurd (hbytes.symm.trans (by simp [WorkerReply.seen, hprinted])) hsome
    · by_cases hmillis : millis ≤ time
      · exact ⟨millis, by simpa [WorkerReply.seen, hprinted, hmillis] using hbytes⟩
      · exact absurd (hbytes.symm.trans (by simp [WorkerReply.seen, hprinted, hmillis])) hsome
  obtain ⟨millis, hprinted⟩ := hprinted
  obtain ⟨answer, id, data⟩ := response
  cases answer with
  | ok =>
    obtain rfl : data = value := WorkOutcome.answered.inj hvalue
    exact ⟨w, hw, process, now, millis, id, body, hbody, hprinted, hdecode⟩
  | error => cases hvalue

end WorkResult

/-! ## On the way through a pool -/

/-- The phase is one of the item, and its result, if there is one, was given. -/
def Phase.Given (kind : WorkerKind W) (S : W → Prop) (item : Item) : Phase → Prop
  | .arrived i | .registered i | .queued i _ | .dispatched i _ | .retiring i _ _ _
  | .launching i _ | .ready i _ | .calling i _ _ => i = item
  | .settling _ r | .burying _ _ _ r | .replacing _ _ r | .freeing _ r | .done r =>
    r.Given kind S item

/-- The task is one of the item, and its result, if there is one, was given. -/
structure PoolTask.Given (kind : WorkerKind W) (S : W → Prop) (item : Item) (t : PoolTask) :
    Prop where
  phase : t.phase.Given kind S item
  call : ∀ call out, t.call = some call → call.outcome = some out → out.1.Given kind S item

theorem Phase.Given.change {p p' : Pool} {id id' : UInt64} {phase next : Phase} {e : Visit.Event}
    (h : phase.Given kind S item)
    (hv : Visit.Change p ⟨id, phase, .awake⟩ e p' ⟨id', next, .awake⟩) :
    next.Given kind S item := by
  cases hv with
  | refuse | cancelAtDoor | closeAtDoor | withdraw | findCancelled | launchFailed | launchInVain
  | fetchNone => exact WorkResult.given_failed _ _ _
  | settle | loseLast | lose => exact WorkResult.Given.blame h p
  | _ => exact h

/-- The task is about to call its worker. -/
def PoolTask.Calls (t : PoolTask) : Prop :=
  t.call = none ∧ ∃ item slot link, t.phase = .calling item slot link

namespace PoolRun

variable {r r' : PoolRun W} {i : Nat} {t : PoolTask} {goal : PoolRun W → Bool}

theorem Makes.given (h : r.Tidy) (hkind : r.kind = kind) (ht : t.Given kind S item)
    (hcalls : t.Calls → S r.world) {p : Pool} {u : PoolTask} (hmakes : r.Makes t p u) :
    u.Given kind S item := by
  cases hmakes with
  | go hv => exact ⟨ht.phase.change hv.change, by simp⟩
  | stay => exact ⟨ht.phase, by simp⟩
  | reply hout => exact ⟨ht.call _ _ rfl hout, by simp⟩
  | @call _ slot link _ _ _ _ _ _ hl hreply =>
    refine ⟨ht.phase, ?_⟩
    rintro _ out ⟨⟩ hout
    obtain ⟨d, hd, rfl⟩ := Option.map_eq_some_iff.1 hout
    obtain ⟨limit, fits, time, hcall⟩ := WorkerReply.seen_of_decide hd
    have hworld := hcalls ⟨rfl, _, slot, link, rfl⟩
    obtain rfl := ht.phase
    rcases hreply with ⟨hb, -⟩ | rfl
    · exact WorkResult.given_of_isLoss (WorkerLink.call_of_broken hb hcall).1
    · rw [hkind] at hcall
      have hlink := h.pool _ (List.mem_of_getElem? hl)
      exact WorkResult.given_of_call hworld hlink (hkind ▸ h.terse) hcall

/-- Task `i` is one of the item, and its result, if there is one, was given. -/
structure Given (kind : WorkerKind W) (S : W → Prop) (item : Item) (i : Nat) (r : PoolRun W) :
    Prop where
  sameKind : r.kind = kind
  tidy : r.Tidy
  task : ∀ t, r.tasks[i]? = some t → t.Given kind S item

/-- On the way to a goal, task `i` calls its worker in this world. -/
def CallsIn (r : PoolRun W) (goal : PoolRun W → Bool) (i : Nat) (w : W) : Prop :=
  ∃ steps due t, (r.advance steps goal none).next? = some (due, i, t) ∧ t.Calls ∧
    (r.advance steps goal none).world = w

/-- As long as the goal is not reached, the first step is that of the task that comes next. -/
theorem advance_succ {due : Nat} (hgoal : goal r = false) (hnext : r.next? = some (due, i, t))
    (steps : Nat) : r.advance (steps + 1) goal none =
      (({ r with now := max r.now due } : PoolRun W).step i t).advance steps goal none := by
  rw [PoolRun.advance]
  simp only [hgoal, hnext, Bool.false_eq_true, if_false, Option.any_none]

namespace Given

theorem congr (h : Given kind S item i r) (now : Nat) : Given kind S item i { r with now } :=
  ⟨h.sameKind, h.tidy.congr rfl h.tidy.pool rfl, h.task⟩

theorem wake (h : Given kind S item i r) : Given kind S item i r.wake := by
  refine ⟨h.sameKind, h.tidy.wake, fun t ht => ?_⟩
  change (r.tasks.map _)[i]? = some t at ht
  rw [Array.getElem?_map] at ht
  obtain ⟨u, hu, rfl⟩ := Option.map_eq_some_iff.1 ht
  obtain ⟨hphase, hcall⟩ := h.task u hu
  obtain ⟨phase, due, waiting, call⟩ := u
  cases phase <;> exact ⟨hphase, hcall⟩

theorem stepped (h : Given kind S item i r) {j : Nat} (ht : r.tasks[j]? = some t)
    (hcalls : j = i → t.Calls → S r.world) (hstepped : r.Stepped j t r') :
    Given kind S item i r' := by
  have htidy := hstepped.tidy h.tidy ht
  obtain ⟨hkind, u, hmakes, htasks⟩ := hstepped
  refine ⟨hkind.trans h.sameKind, htidy, fun v hv => ?_⟩
  rw [htasks, Array.getElem?_setIfInBounds] at hv
  split_ifs at hv with hj
  · subst hj
    cases hv
    exact hmakes.given h.tidy h.sameKind (h.task t ht) (hcalls rfl)
  · exact h.task v hv

/-- **No step makes up a value.** -/
theorem step (h : Given kind S item i r) {j : Nat} (ht : r.tasks[j]? = some t)
    (hcalls : j = i → t.Calls → S r.world) : Given kind S item i (r.step j t) := by
  obtain ⟨r', hstepped, hr | hr⟩ := r.step_cases j t <;> rw [hr]
  · exact h.stepped ht hcalls hstepped
  · exact (h.stepped ht hcalls hstepped).wake

theorem advance (h : Given kind S item i r) (bound : Nat) (goal : PoolRun W → Bool)
    (hcalls : ∀ w, r.CallsIn goal i w → S w) : Given kind S item i (r.advance bound goal none) := by
  induction bound generalizing r with
  | zero => exact h
  | succ bound ih =>
    cases hgoal : goal r with
    | true => simpa [PoolRun.advance, hgoal] using h
    | false =>
      cases hnext : r.next? with
      | none => simpa [PoolRun.advance, hgoal, hnext] using h.congr r.now
      | some next =>
        obtain ⟨due, j, t⟩ := next
        rw [advance_succ hgoal hnext]
        refine ih ((h.congr _).step (of_next? hnext).1 ?_) ?_
        · rintro rfl ht
          exact hcalls _ ⟨0, due, t, hnext, ht, rfl⟩
        · rintro w ⟨steps, hcall⟩
          exact hcalls w ⟨steps + 1, by rwa [advance_succ hgoal hnext]⟩

end Given

/-- While the result of an item is waited for, a worker is called for it in this world. -/
def Serves {J : Type} (r : PoolRun W) (filter : Action J Dispatch) (journal : J) (item : Item)
    (w : W) : Prop :=
  (r.submit filter journal item).2.2.CallsIn (fun r' => (r'.result? r.tasks.size).isSome)
    r.tasks.size w

end PoolRun

end Rebuild
