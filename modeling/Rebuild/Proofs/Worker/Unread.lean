/-
  Nothing is left unread on a link that can be used.

  Workers of many kinds answer with one frame or not at all (`WorkerReply.Terse`).  In a pool of
  such workers a call that does not break its link has read all that arrived, whatever else
  happened there (`PoolRun.Reachable.tidy`).
-/
import Rebuild.Proofs.Worker.Dialogue
import Rebuild.Proofs.Worker.PoolStep
import Rebuild.Worker.Workplace

namespace Rebuild

/-! ## One call -/

/-- The link is not used again, or all that arrived was read. -/
def WorkerLink.Clean (l : WorkerLink) : Prop := l.broken = true ∨ l.unread.flatten = []

/-- Only so much arrives: nothing, or one frame. -/
def Exchange.Terse (x : Exchange) : Prop :=
  x.arriving.flatten = [] ∨
    ∃ body : Text, body.length ≤ maxFrame ∧ x.arriving.flatten = Frame.encode body

/-- The worker answers with one frame, or not at all. -/
def WorkerReply.Terse (reply : WorkerReply) : Prop :=
  reply.printed = [] ∨ ∃ millis r, WorkerLoop.fits r = true ∧
    reply.printed = [(millis, Frame.encode r.encode)]

/-- Its workers answer with one frame, or not at all. -/
def WorkerKind.Terse {W : Type} (kind : WorkerKind W) : Prop :=
  ∀ w process item now, (kind.call w process item now).1.Terse

namespace WorkerLink

variable {l after : WorkerLink} {item : Item} {limit : Int} {x : Exchange} {r : WorkResult}

theorem Clean.unread (h : l.Clean) (hb : l.broken = false) : l.unread.flatten = [] :=
  h.resolve_left (by simp [hb])

/-- An answer is all that arrives. -/
theorem Clean.answer (hl : l.Clean) (hx : x.Terse) (h : l.call item limit x = some (r, after))
    (hr : r.IsAnswer) : ∃ body response, body.length ≤ maxFrame ∧
      x.arriving.flatten = Frame.encode body ∧ Response.decode? body = some response ∧
      r = resultOf item response ∧ after.unread.flatten = [] := by
  obtain ⟨-, body, rest, response, hread, hdecode, hresult, rfl⟩ := answer_of_call h hr
  obtain ⟨hbody, hbytes⟩ := Frame.of_read hread
  have hb : l.broken = false := by
    cases called_of_call h with
    | answered _ hb => exact hb
    | lost _ hlost => exact absurd hr hlost.not_isAnswer
  replace hbytes : x.arriving.flatten = Frame.encode body ++ rest.bytes := by
    simpa [Inflow.bytes, hl.unread hb] using hbytes
  have hrest : rest.bytes = [] := by
    rcases hx with hx | ⟨body', hbody', hx⟩
    · exact (List.append_eq_nil_iff.1 (hbytes.symm.trans hx)).2
    · have hframes := (hbytes.symm.trans hx).trans (List.append_nil _).symm
      exact (Frame.encode_append_inj hbody hbody' hframes).2
  exact ⟨body, response, hbody, by simpa [hrest] using hbytes, hdecode, hresult, hrest⟩

/-- **A call leaves nothing unread**, or breaks the link. -/
theorem Clean.call (hl : l.Clean) (hx : x.Terse) (h : l.call item limit x = some (r, after)) :
    after.Clean := by
  cases called_of_call h with
  | lost _ _ hb => exact Or.inl hb
  | answered _ _ _ hr =>
    obtain ⟨-, -, -, -, -, -, hunread⟩ := hl.answer hx h hr
    exact Or.inr hunread

end WorkerLink

namespace WorkerReply

variable {reply : WorkerReply}

theorem Terse.seen (h : reply.Terse) (fits : Bool) (time : Nat) : (reply.seen fits time).Terse := by
  rcases h with h | ⟨millis, r, hr, h⟩
  · exact Or.inl (by simp [WorkerReply.seen, h])
  · by_cases hmillis : millis ≤ time
    · exact Or.inr ⟨r.encode, of_decide_eq_true hr, by simp [WorkerReply.seen, h, hmillis]⟩
    · exact Or.inl (by simp [WorkerReply.seen, h, hmillis])

end WorkerReply

/-- All links are clean. -/
def Pool.Clean (p : Pool) : Prop := ∀ l ∈ p.links, l.Clean

/-- A call under way will leave its link clean. -/
structure OpenCall.Clean (call : OpenCall) : Prop where
  link : call.link.Clean
  reply : call.reply.Terse
  outcome : ∀ out, call.outcome = some out → out.2.Clean

namespace Pool

variable {p : Pool}

theorem Clean.updateLink (h : p.Clean) (link : Nat) {f : WorkerLink → WorkerLink}
    (hf : ∀ l : WorkerLink, (f l).Clean) : (p.updateLink link f).Clean := by
  intro l hl
  obtain ⟨k, hk⟩ := List.mem_iff_getElem?.1 hl
  rw [Pool.updateLink, List.getElem?_modify] at hk
  obtain ⟨l', hl', rfl⟩ := Option.map_eq_some_iff.1 hk
  split_ifs
  · exact hf l'
  · exact h l' (List.mem_of_getElem? hl')

theorem Clean.reap (h : p.Clean) (link : Nat) : (p.updateLink link WorkerLink.reap).Clean :=
  h.updateLink link fun _ => Or.inl rfl

theorem Clean.place (h : p.Clean) (slot process : Nat) (fingerprint : Text) :
    (p.place slot process fingerprint).Clean := by
  intro l hl
  rcases List.mem_append.1 hl with hl | hl
  · exact h l hl
  · rw [List.mem_singleton.1 hl]
    exact Or.inr rfl

theorem Clean.cancel (h : p.Clean) : p.cancel.Clean := by
  unfold Pool.cancel
  split_ifs
  · exact h
  · generalize p.busyLinks = links
    have hp : Pool.Clean { p with cancelled := true } := h
    generalize { p with cancelled := true } = q at hp
    induction links generalizing q with
    | nil => exact hp
    | cons link links ih => exact ih _ (hp.updateLink link fun _ => Or.inl rfl)

/-- Only a call could leave something unread. -/
theorem Clean.change {p' : Pool} {v v' : Visit} {e : Visit.Event} (h : p.Clean)
    (hv : v.Step p e p' v') (he : ∀ link r, e ≠ .replied link r) : p'.Clean := by
  cases hv.change with
  | retire | bury | buryFirst => exact h.reap _
  | launch | launchInVain | replace => exact h.place _ _ _
  | reply => exact absurd rfl (he _ _)
  | _ => exact h

end Pool

namespace PoolRun

variable {W : Type} {r r' : PoolRun W} {i : Nat} {t : PoolTask} {settings : PoolSettings}
  {processors : Nat}

/-- Nothing is or will be left unread on links that can be used. -/
structure Tidy (r : PoolRun W) : Prop where
  terse : r.kind.Terse
  pool : r.pool.Clean
  calls : ∀ (i : Nat) (t : PoolTask) (call : OpenCall), r.tasks[i]? = some t →
    t.call = some call → call.Clean

namespace Tidy

/-- World, time and log have no part in it. -/
theorem congr (h : r.Tidy) (hkind : r'.kind = r.kind) (hpool : r'.pool.Clean)
    (htasks : r'.tasks = r.tasks) : r'.Tidy :=
  ⟨hkind ▸ h.terse, hpool, htasks ▸ h.calls⟩

theorem tell (h : r.Tidy) (level : Log.Level) (message : Text) : (r.tell level message).Tidy :=
  h.congr rfl h.pool rfl

theorem setTask (h : r.Tidy) (i : Nat) (ht : ∀ call, t.call = some call → call.Clean) :
    (r.setTask i t).Tidy := by
  refine ⟨h.terse, h.pool, fun j u call hj hcall => ?_⟩
  change (r.tasks.setIfInBounds i t)[j]? = some u at hj
  rw [Array.getElem?_setIfInBounds] at hj
  split_ifs at hj
  · cases hj
    exact ht call hcall
  · exact h.calls j u call hj hcall

/-- Tasks that are changed keep their calls, or get clean ones. -/
theorem map (h : r.Tidy) {f : PoolTask → PoolTask}
    (hf : ∀ t : PoolTask, (∀ call, t.call = some call → call.Clean) →
      ∀ call, (f t).call = some call → call.Clean) : Tidy { r with tasks := r.tasks.map f } := by
  refine ⟨h.terse, h.pool, fun j u call hj hcall => ?_⟩
  change (r.tasks.map f)[j]? = some u at hj
  rw [Array.getElem?_map] at hj
  obtain ⟨t, ht, rfl⟩ := Option.map_eq_some_iff.1 hj
  exact hf t (fun call => h.calls j t call ht) call hcall

theorem wake (h : r.Tidy) : r.wake.Tidy := by
  refine h.map fun t ht call hcall => ht call ?_
  rw [← hcall]
  cases t.phase <;> rfl

end Tidy

/-! ## Steps of tasks -/

/-- A step leaves things tidy. -/
theorem Makes.clean (h : r.Tidy) (ht : r.tasks[i]? = some t) {p : Pool} {u : PoolTask}
    (hmakes : r.Makes t p u) : p.Clean ∧ ∀ call, u.call = some call → call.Clean := by
  cases hmakes with
  | go hv he => exact ⟨h.pool.change hv he, by simp⟩
  | stay => exact ⟨h.pool, by simp⟩
  | call limit hl hreply =>
    have hlink := h.pool _ (List.mem_of_getElem? hl)
    refine ⟨h.pool, ?_⟩
    rintro _ ⟨⟩
    have hterse : WorkerReply.Terse _ := hreply.elim (fun hb => Or.inl hb.2) fun he =>
      he ▸ h.terse _ _ _ _
    refine ⟨hlink, hterse, fun out hout => ?_⟩
    obtain ⟨d, hd, rfl⟩ := Option.map_eq_some_iff.1 hout
    obtain ⟨limit, fits, time, hcall⟩ := WorkerReply.seen_of_decide hd
    exact hlink.call (hterse.seen fits time) hcall
  | reply hout =>
    have hafter := (h.calls i _ _ ht rfl).outcome _ hout
    exact ⟨h.pool.updateLink _ fun l => hafter.imp (by simp +contextual) id, by simp⟩

theorem Stepped.tidy (h : r.Tidy) (ht : r.tasks[i]? = some t) (hstepped : r.Stepped i t r') :
    r'.Tidy := by
  obtain ⟨hkind, u, hmakes, htasks⟩ := hstepped
  obtain ⟨hpool, hcalls⟩ := hmakes.clean h ht
  exact (h.setTask i hcalls).congr hkind hpool htasks

theorem Tidy.step (h : r.Tidy) (ht : r.tasks[i]? = some t) : (r.step i t).Tidy := by
  obtain ⟨r', hstepped, hr | hr⟩ := r.step_cases i t <;> rw [hr]
  · exact hstepped.tidy h ht
  · exact (hstepped.tidy h ht).wake

theorem Tidy.advance (h : r.Tidy) (bound : Nat) (goal : PoolRun W → Bool) (horizon : Option Nat) :
    (r.advance bound goal horizon).Tidy :=
  advance_keeps (fun _ _ h => h.congr rfl h.pool rfl) (fun _ _ _ h ht => h.step ht) h bound goal
    horizon

/-! ## What users do -/

section
variable {J : Type} (filter : Action J Dispatch) (journal : J) (item : Item)

theorem Tidy.submit (h : r.Tidy) : (r.submit filter journal item).2.2.Tidy := by
  refine ⟨h.terse, ?_, fun i t call ht hcall => ?_⟩
  · change (ite _ _ _ : Pool × Phase).1.Clean
    split_ifs <;> exact h.pool
  · change (r.tasks.push _)[i]? = some t at ht
    rw [Array.getElem?_push] at ht
    split_ifs at ht
    · cases ht
      cases hcall
    · exact h.calls i t call ht hcall

end

theorem Tidy.cutShort (h : ∀ call, t.call = some call → call.Clean) (r : PoolRun W)
    (killed : List Nat) : ∀ call, (r.cutShort killed t).call = some call → call.Clean := by
  unfold PoolRun.cutShort
  split
  · next open? hphase hopen =>
    split_ifs
    · rintro call ⟨⟩
      obtain ⟨hlink, hreply, -⟩ := h _ hopen
      refine ⟨hlink, hreply, fun out hout => hlink.call ?_ hout⟩
      exact hreply.seen true _
    · exact h
  · exact h

theorem cancel_kind (r : PoolRun W) : r.cancel.kind = r.kind := by
  unfold PoolRun.cancel
  split_ifs <;> rfl

theorem Tidy.cancel (h : r.Tidy) : r.cancel.Tidy := by
  unfold PoolRun.cancel
  split_ifs
  · exact h
  · have hmap := h.map fun t ht => cutShort ht r r.pool.busyLinks
    have hcancelled : Tidy { r with
        pool := r.pool.cancel
        tasks := r.tasks.map (r.cutShort r.pool.busyLinks) } := hmap.congr rfl h.pool.cancel rfl
    exact hcancelled.wake.tell _ _

section
variable (links : List Nat)

theorem stop_kind (r : PoolRun W) : (links.foldl (fun r link =>
    let (time, r) := PoolRun.stopWorker r link
    { r with now := r.now + time, pool := r.pool.updateLink link WorkerLink.reap }) r).kind =
      r.kind := by
  induction links generalizing r with
  | nil => rfl
  | cons link links ih => exact (ih _).trans (r.stopWorker_kind link)

theorem Tidy.stop (h : r.Tidy) : Tidy (links.foldl (fun r link =>
    let (time, r) := PoolRun.stopWorker r link
    { r with now := r.now + time, pool := r.pool.updateLink link WorkerLink.reap }) r) := by
  induction links generalizing r with
  | nil => exact h
  | cons link links ih =>
    obtain ⟨hpool, htasks⟩ := r.stopWorker_frame link
    refine ih (h.congr (r.stopWorker_kind link) ?_ htasks)
    exact (hpool ▸ h.pool).reap link

end

theorem shutdown_kind (r : PoolRun W) : r.shutdown.kind = r.kind := by
  unfold PoolRun.shutdown
  simp only
  split
  · exact advance_kind _ _ _ _
  · split_ifs <;> exact (stop_kind _ _).trans (advance_kind _ _ _ _)

theorem Tidy.shutdown (h : r.Tidy) : r.shutdown.Tidy := by
  have hclosed : Tidy { r with pool := r.pool.close } := h.congr rfl h.pool rfl
  have hreached := hclosed.wake.advance (PoolRun.wake { r with pool := r.pool.close }).bound
    (fun r => r.pool.admitted = 0) none
  change Tidy ((PoolRun.wake { r with pool := r.pool.close }).reach _) at hreached
  unfold PoolRun.shutdown
  simp only
  generalize (PoolRun.wake { r with pool := r.pool.close }).reach _ = r₁ at hreached
  split
  · exact hreached
  · next p links hdrain =>
    obtain ⟨-, rfl, -⟩ := Pool.drain?_eq_some_iff.1 hdrain
    have hdrained : Tidy { r₁ with
        pool := { r₁.pool with slots := r₁.pool.slots.map fun s => { s with link := none } } } :=
      hreached.congr rfl hreached.pool rfl
    have hstopped := hdrained.stop links
    split_ifs
    · exact hstopped
    · exact hstopped.tell _ _

/-- **In a pool of workers that answer with one frame or not at all, nothing is left unread** on
    links that can be used, whatever its users do. -/
theorem Reachable.tidy (h : r.Reachable settings processors) (hterse : r.kind.Terse) : r.Tidy := by
  induction h with
  | start kind world =>
    refine ⟨hterse, fun l hl => ?_, fun i t call ht => ?_⟩
    · cases hl
    · simp [PoolRun.start] at ht
  | submit journal item _ _ ih => exact (ih hterse).submit _ journal item
  | advance bound goal horizon _ ih =>
    exact (ih (advance_kind bound goal horizon _ ▸ hterse)).advance bound goal horizon
  | cancel _ ih => exact (ih (cancel_kind _ ▸ hterse)).cancel
  | shutdown _ ih => exact (ih (shutdown_kind _ ▸ hterse)).shutdown
  | meanwhile world log _ ih =>
    have htidy := ih hterse
    exact htidy.congr rfl htidy.pool rfl

end PoolRun

end Rebuild
