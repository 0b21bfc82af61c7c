/-
  What becomes of visits when the pool is cancelled.

  * who comes to register afterwards is rejected (`Visit.IsLate`);
  * who was on its way ends with the answer of its worker, or is cancelled
    (`Visit.IsGivenUp`), and an answer is one that came over a link (`Genuine`);
  * the workers of busy slots are killed, and so is every worker that is put into a slot.

  `Traffic.run_cancelled` collects this.
-/
import Rebuild.Proofs.Worker.Progress

namespace Rebuild

/-- The result of a phase, once there is one. -/
def Phase.result? : Phase → Option WorkResult
  | .settling _ r | .burying _ _ _ r | .replacing _ _ r | .freeing _ r | .done r => some r
  | _ => none

/-- The result with which a visit is to replace its worker. -/
def Phase.respawns? : Phase → Option WorkResult
  | .burying _ _ (some _) r | .replacing _ _ r => some r
  | _ => none

namespace Visit

variable {p p' : Pool} {v v' : Visit} {e : Event}

/-- It has not registered, or was rejected. -/
def IsLate (v : Visit) : Prop :=
  (∃ item, v.phase = .arrived item) ∨ ∃ why, v.phase = .done (.failed v.id .rejected why)

/-- It is on its way, or has the answer of its worker, or was cancelled. -/
def IsGivenUp (v : Visit) : Prop :=
  v.phase.note?.isSome = true ∨ ∃ r, v.phase.counted? = some r ∧
    (r.IsAnswer ∨ ∃ why, r = .failed v.id .cancelled why)

namespace Change

/-- A cancelled pool takes note of nobody. -/
theorem isLate (h : Change p v e p' v') (hc : p.cancelled = true) (hv : v.Proper)
    (hl : v.IsLate) : v'.IsLate := by
  rcases hl with ⟨item, hph⟩ | ⟨why, hph⟩
  · cases h with
    | @refuse id item why =>
      obtain rfl : item.id = id := hv.id_eq
      exact Or.inr ⟨why, rfl⟩
    | register hcan => simp [hc] at hcan
    | _ => cases hph
  · exact absurd hph (h.ne_done _)

/-- In a cancelled pool a loss is put down to that. -/
theorem isGivenUp (h : Change p v e p' v') (hc : p.cancelled = true) (hv : v.Proper)
    (hg : v.IsGivenUp) : v'.IsGivenUp := by
  have hblame {id : UInt64} {s : Nat} {r : WorkResult}
      (hp : Visit.Proper ⟨id, .settling s r, .awake⟩) : (p.blame r).IsAnswer ∨
      ∃ why, p.blame r = .failed id .cancelled why := by
    obtain rfl : r.id = id := hp.id_eq
    rcases blame_cases (p := p) (hp.result s r rfl) with ⟨hb, hr | hcan⟩ | ⟨-, why, hb⟩
    · exact Or.inl (by rwa [hb])
    · simp [hc] at hcan
    · exact Or.inr ⟨why, hb⟩
  cases h with
  | @cancelAtDoor id item why | @withdraw id item _ why =>
    obtain rfl : item.id = id := hv.id_eq
    exact Or.inr ⟨_, rfl, Or.inr ⟨why, rfl⟩⟩
  | settle | loseLast => exact Or.inr ⟨_, rfl, hblame hv⟩
  | closeAtDoor _ hcan | lose _ _ _ hcan => simp [hc] at hcan
  | refuse => simp [IsGivenUp, Phase.note?, Phase.counted?] at hg
  | bury | buryFirst | replace | leaveEmpty | free =>
    exact Or.inr (hg.resolve_left (by simp [Phase.note?]))
  | _ => exact Or.inl rfl

/-- An answer came over the link of a call that was sent. -/
theorem answer (h : Change p v e p' v') (hv : v.Proper) {r : WorkResult}
    (hr : v'.phase.result? = some r) (ha : r.IsAnswer) : v.phase.result? = some r ∨
      ∃ k item s l, e = .replied k r ∧ v.phase = .calling item s k ∧ v.stance = .calling l ∧
        l.broken = false := by
  have hblame {id : UInt64} {s : Nat} {r₀ : WorkResult}
      (hp : Visit.Proper ⟨id, .settling s r₀, .awake⟩) (hb : p.blame r₀ = r) : r₀ = r := by
    rcases blame_cases (p := p) (hp.result s r₀ rfl) with ⟨hb', -⟩ | ⟨-, why, hb'⟩
    · exact hb'.symm.trans hb
    · rw [← hb, hb'] at ha
      cases ha
  cases h with
  | @reply _ item s k l after r₀ hcall =>
    obtain rfl := Option.some.inj hr
    cases hcall with
    | answered _ hl => exact Or.inr ⟨k, item, s, l, rfl, rfl, rfl, hl⟩
    | lost _ hloss => exact absurd ha hloss.not_isAnswer
  | settle | loseLast | lose => exact Or.inl (congrArg some (hblame hv (Option.some.inj hr)))
  | findCancelled | launchFailed | launchInVain | fetchNone | refuse | cancelAtDoor | closeAtDoor
  | withdraw =>
    obtain rfl := Option.some.inj hr
    cases ha
  | bury | buryFirst | replace | leaveEmpty | free => exact Or.inl hr
  | _ => cases hr

/-- What is sent over a link that is not broken is noted. -/
theorem sent (h : Change p v e p' v') {l : WorkerLink} (hs : v'.stance = .calling l)
    (hl : l.broken = false) {item : Item} {s k : Nat} (hph : v'.phase = .calling item s k) :
    e = .sent item k := by
  cases h with
  | send =>
    cases hph
    rfl
  | keep _ hb =>
    cases hs
    simp [hl] at hb
  | _ => cases hs

/-- In a cancelled pool nobody falls asleep. -/
theorem not_asleep (h : Change p v e p' v') (hc : p.cancelled = true) :
    v'.stance ≠ .asleep := by
  intro hs
  cases h with
  | awaitPlace hcan | awaitSlot hcan => simp [hc] at hcan
  | _ => cases hs

/-- A worker that is put into a slot of a cancelled pool is killed. -/
theorem killed {s k : Nat} {fp : Text} (h : Change p v (.launched s k fp) p' v')
    (hc : p.cancelled = true) :
    ∃ process, p'.links[k]? = some ({ process, fingerprint := fp } : WorkerLink).kill := by
  cases h with
  | launchInVain process | replace process =>
    refine ⟨process, List.getElem?_concat_length.trans ?_⟩
    rw [hc]
    rfl
  | launch _ hcan => simp [hc] at hcan

end Change

end Visit

/-- The workers of busy slots. -/
theorem Pool.mem_busyLinks {p : Pool} {k : Nat} :
    k ∈ p.busyLinks ↔ ∃ s, p.Busy s ∧ p.linkOf s = some k := by
  unfold busyLinks Busy busy? linkOf
  rw [List.mem_filterMap]
  constructor
  · rintro ⟨x, hx, hk⟩
    obtain ⟨s, hs⟩ := List.mem_iff_getElem?.1 hx
    split_ifs at hk with hb
    exact ⟨s, by simp [hs, hb], by simp [hs, hk]⟩
  · rintro ⟨s, hb, hk⟩
    obtain ⟨x, hs, hb⟩ := Option.map_eq_some_iff.1 hb
    refine ⟨x, List.mem_of_getElem? hs, ?_⟩
    rw [if_pos hb]
    simpa [hs] using hk

namespace Traffic

variable {c c' c₁ c₂ : Traffic} {m : Move} {moves later : List Move} {settings : PoolSettings}
  {processors i : Nat}

/-! ## Answers -/

/-- The result is what the worker said to which visit `i` sent its item. -/
def Genuine (moves : List Move) (i : Nat) (r : WorkResult) : Prop :=
  ∃ item k, .visit i (.sent item k) ∈ moves ∧ .visit i (.replied k r) ∈ moves

/-- Answers are genuine. -/
structure Truthful (moves : List Move) (c : Traffic) : Prop where
  sent : ∀ (i : Nat) (v : Visit) (l : WorkerLink) (item : Item) (s k : Nat),
    c.visits[i]? = some v → v.stance = .calling l → l.broken = false →
    v.phase = .calling item s k → .visit i (.sent item k) ∈ moves
  genuine : ∀ (i : Nat) (v : Visit) (r : WorkResult), c.visits[i]? = some v →
    v.phase.result? = some r → r.IsAnswer → Genuine moves i r

theorem Genuine.append {i : Nat} {r : WorkResult} (h : Genuine moves i r) :
    Genuine (moves ++ later) i r := by
  obtain ⟨item, k, hs, hr⟩ := h
  exact ⟨item, k, List.mem_append_left _ hs, List.mem_append_left _ hr⟩

theorem Step.truthful (h : Step c m c') (hs : c.pool.Sound c.visits) (hc : Truthful moves c) :
    Truthful (moves ++ [m]) c' := by
  constructor
  case sent =>
    intro j w l item s k hj hstance hl hph
    rcases h.visit_cases hj with ⟨-, item, d, -, -, ⟨-, rfl⟩ | ⟨-, rfl⟩⟩ |
      ⟨v, hv, ⟨-, hwv⟩ | ⟨e, v', rfl, hch, hwv⟩⟩
    · cases hstance
    · cases hstance
    · exact List.mem_append_left _
        (hc.sent j v l item s k hv (hwv.calling hstance) hl (hwv.phase ▸ hph))
    · rw [hch.sent (hwv.calling hstance) hl (hwv.phase ▸ hph)]
      exact List.mem_append_right _ (List.mem_singleton.2 rfl)
  case genuine =>
    intro j w r hj hr ha
    rcases h.visit_cases hj with ⟨-, item, d, -, -, ⟨-, rfl⟩ | ⟨-, rfl⟩⟩ |
      ⟨v, hv, ⟨-, hwv⟩ | ⟨e, v', rfl, hch, hwv⟩⟩
    · cases hr
    · cases hr
      cases ha
    · exact (hc.genuine j v r hv (hwv.phase ▸ hr) ha).append
    · rcases hch.answer (hs.proper v (List.mem_of_getElem? hv)) (hwv.phase ▸ hr) ha with
        hr | ⟨k, item, s, l, rfl, hph, hstance, hl⟩
      · exact (hc.genuine j v r hv hr ha).append
      · refine ⟨item, k, List.mem_append_left _ (hc.sent j v l item s k hv hstance hl hph), ?_⟩
        exact List.mem_append_right _ (List.mem_singleton.2 rfl)

theorem Run.truthful (h : Run (start settings processors) moves c) : Truthful moves c := by
  induction h with
  | nil => exact ⟨by simp [start], by simp [start]⟩
  | snoc hr hs ih => exact hs.truthful hr.sound ih

/-! ## After the pool was cancelled -/

theorem told_isLate {v w : Visit} (h : Told v w) (hv : v.IsLate) : w.IsLate := by
  unfold Visit.IsLate
  rwa [h.phase, h.id]

theorem told_isGivenUp {v w : Visit} (h : Told v w) (hv : v.IsGivenUp) : w.IsGivenUp := by
  unfold Visit.IsGivenUp
  rwa [h.phase, h.id]

theorem Step.eq_cancel (h : Step c m c') (hc : c.pool.cancelled = false)
    (hc' : c'.pool.cancelled = true) : m = .cancel := by
  cases h with
  | cancel => rfl
  | @visit i e v v' p _ hv =>
    rw [pass_pool, hv.change.frame.1, hc] at hc'
    cases hc'
  | drain _ hd =>
    obtain ⟨-, rfl, -⟩ := Pool.drain?_eq_some_iff.1 hd
    cases hc.symm.trans hc'
  | _ => cases hc.symm.trans hc'

/-- In a cancelled pool nobody sleeps. -/
theorem Step.not_asleep (h : Step c m c')
    (hc : c.pool.cancelled = true → ∀ v ∈ c.visits, v.stance ≠ .asleep)
    (hcan' : c'.pool.cancelled = true) : ∀ w ∈ c'.visits, w.stance ≠ .asleep := by
  intro w hw hsleep
  cases hcan : c.pool.cancelled with
  | false =>
    obtain rfl := h.eq_cancel hcan hcan'
    cases h with
    | cancel =>
      obtain ⟨u, -, rfl⟩ := List.mem_map.1 hw
      exact u.wake_not_asleep hsleep
  | true =>
    obtain ⟨j, hj⟩ := List.mem_iff_getElem?.1 hw
    rcases h.visit_cases hj with ⟨-, item, d, -, -, ⟨-, rfl⟩ | ⟨-, rfl⟩⟩ |
      ⟨v, hv, ⟨-, hwv⟩ | ⟨e, v', -, hch, hwv⟩⟩
    · cases hsleep
    · cases hsleep
    · exact hc hcan v (List.mem_of_getElem? hv) (hwv.asleep hsleep)
    · exact hch.not_asleep hcan (hwv.asleep hsleep)

theorem Run.not_asleep (h : Run (start settings processors) moves c)
    (hcan : c.pool.cancelled = true) : ∀ v ∈ c.visits, v.stance ≠ .asleep := by
  suffices hrun : c.pool.cancelled = true → ∀ v ∈ c.visits, v.stance ≠ .asleep from hrun hcan
  clear hcan
  induction h with
  | nil => exact fun _ v hv => by simp [start] at hv
  | snoc _ hs ih => exact hs.not_asleep ih

/-- A move of visit `i`. -/
def Move.isOf (i : Nat) : Move → Bool
  | .visit j _ => j = i
  | _ => false

/-- In a cancelled pool a visit has few steps left. -/
theorem Run.rank_le (h : Run c moves c') (hc : c.pool.cancelled = true) (i : Nat) :
    (c'.visits[i]? = none → moves.countP (Move.isOf i) = 0) ∧
      ∀ w, c'.visits[i]? = some w → moves.countP (Move.isOf i) + w.rank ≤ 13 := by
  induction h with
  | nil => exact ⟨fun _ => rfl, fun w _ => by simpa using w.rank_le⟩
  | @snoc moves c' c'' m hr hs ih =>
    have hcan := hr.keeps.cancelled hc
    have hcount : (moves ++ [m]).countP (Move.isOf i) =
        moves.countP (Move.isOf i) + if m.isOf i then 1 else 0 := by
      rw [List.countP_append, List.countP_singleton]
    have hother (hm : ∀ e, m ≠ .visit i e) : m.isOf i = false := by
      cases m with
      | visit j e =>
        simp only [Move.isOf, decide_eq_false_iff_not]
        rintro rfl
        exact hm e rfl
      | _ => rfl
    rw [hcount]
    refine ⟨fun hnone => ?_, fun w hw => ?_⟩
    · have hnone' : c'.visits[i]? = none := by
        by_contra hsome
        obtain ⟨v, hv⟩ := Option.ne_none_iff_exists'.1 hsome
        obtain ⟨w, hw, -⟩ := hs.of_visit hv
        simp [hnone] at hw
      rw [ih.1 hnone', hother]
      · rfl
      · rintro e rfl
        cases hs with
        | visit hi => simp [hnone'] at hi
    · rcases hs.visit_cases hw with ⟨hnone, item, d, rfl, -⟩ |
        ⟨v, hv, ⟨hm, hwv⟩ | ⟨e, v', rfl, hch, hwv⟩⟩
      · rw [ih.1 hnone]
        simpa [Move.isOf] using w.rank_le
      · rw [hother hm, Visit.rank_told hwv]
        simpa using ih.2 v hv
      · have hlt := hch.rank_lt (hch.not_asleep hcan)
        have hle := ih.2 v hv
        rw [Visit.rank_told hwv]
        simp only [Move.isOf, decide_true, if_true]
        omega

theorem Run.isLate (h : Run c moves c') (hs : c.pool.Sound c.visits)
    (hc : c.pool.cancelled = true) (hv : ∀ v, c.visits[i]? = some v → v.IsLate) {w : Visit}
    (hw : c'.visits[i]? = some w) :
    w.IsLate ∨ c.visits[i]? = none ∧ w.phase = .done ⟨w.id, .skipped⟩ := by
  induction h generalizing w with
  | nil => exact Or.inl (hv w hw)
  | @snoc moves c' c'' m hr hstep ih =>
    have hs' := hr.sound_of hs
    rcases hstep.visit_cases hw with ⟨hnone, item, d, -, hid, ⟨-, rfl⟩ | ⟨-, rfl⟩⟩ |
      ⟨v, hi, ⟨-, hwv⟩ | ⟨e, v', -, hch, hwv⟩⟩
    · exact Or.inl (Or.inl ⟨_, rfl⟩)
    · refine Or.inr ⟨?_, by rw [hid]⟩
      by_contra hsome
      obtain ⟨v, hv⟩ := Option.ne_none_iff_exists'.1 hsome
      obtain ⟨u, hu⟩ := hr.exists_visit hv
      simp [hnone] at hu
    · refine (ih hi).imp (told_isLate hwv) (And.imp_right fun hph => ?_)
      rw [hwv.phase, hwv.id, hph]
    · refine Or.inl (told_isLate hwv ?_)
      rcases ih hi with hl | ⟨-, hdone⟩
      · exact hch.isLate (hr.keeps.cancelled hc) (hs'.proper v (List.mem_of_getElem? hi)) hl
      · exact absurd hdone (hch.ne_done _)

theorem Run.isGivenUp (h : Run c moves c') (hs : c.pool.Sound c.visits)
    (hc : c.pool.cancelled = true) {v : Visit} (hi : c.visits[i]? = some v) (hv : v.IsGivenUp) :
    ∃ w, c'.visits[i]? = some w ∧ w.IsGivenUp := by
  induction h with
  | nil => exact ⟨v, hi, hv⟩
  | snoc hr hstep ih =>
    obtain ⟨u, hu, hg⟩ := ih
    obtain ⟨w, hw, ⟨-, hwu⟩ | ⟨e, u', -, hch, hwu⟩⟩ := hstep.of_visit hu
    · exact ⟨w, hw, told_isGivenUp hwu hg⟩
    · have hproper := (hr.sound_of hs).proper u (List.mem_of_getElem? hu)
      exact ⟨w, hw, told_isGivenUp hwu (hch.isGivenUp (hr.keeps.cancelled hc) hproper hg)⟩

/-- Who replaces its worker has a failure. -/
theorem Run.respawns (h : Run (start settings processors) moves c) {v : Visit}
    (hv : v ∈ c.visits) {r : WorkResult} (hr : v.phase.respawns? = some r) :
    r.failure?.isSome = true := by
  have hrel := h.staff.relies v hv
  suffices hok : r.ok = false by simpa [WorkResult.ok] using hok
  obtain ⟨id, ph, stance⟩ := v
  cases ph with
  | burying s k respawn r' =>
    cases respawn with
    | none => cases hr
    | some fp =>
      obtain rfl := Option.some.inj hr
      exact hrel.2 rfl
  | replacing s fp r' =>
    obtain rfl := Option.some.inj hr
    exact hrel.2
  | _ => cases hr

/-- What `cancel` does, which comes to `c` and leaves `c₁`, and what is after later moves. -/
structure Cancelled (before : List Move) (c c₁ : Traffic) (later : List Move) (c₂ : Traffic) :
    Prop where
  /-- Who has not registered is rejected, unless the filter drops its item. -/
  late : ∀ (i : Nat) (w : Visit), c₂.visits[i]? = some w →
    (∀ v, c.visits[i]? = some v → ∃ item, v.phase = .arrived item) →
    ((∃ item, w.phase = .arrived item) ∨ ∃ why, w.phase = .done (.failed w.id .rejected why)) ∨
      c.visits[i]? = none ∧ w.phase = .done ⟨w.id, .skipped⟩
  /-- Who is on its way gets the answer of its worker, or is cancelled. -/
  noted : ∀ (i : Nat) (v w : Visit) (r : WorkResult), c.visits[i]? = some v →
    v.phase.note?.isSome = true → c₂.visits[i]? = some w → w.phase = .done r →
    (r.IsAnswer ∧ Genuine (before ++ [.cancel] ++ later) i r) ∨
      ∃ why, r = .failed w.id .cancelled why
  /-- Everybody comes to an end in a few steps of its own. -/
  goes_on : ∀ (i : Nat) (w : Visit), c₂.visits[i]? = some w → (∀ r, w.phase ≠ .done r) →
    ∃ e c₃, Step c₂ (.visit i e) c₃
  bounded : ∀ i, later.countP (Move.isOf i) ≤ 13
  /-- The workers of busy slots are killed. -/
  killed : ∀ (s k : Nat) (l : WorkerLink), c.pool.Busy s → c.pool.linkOf s = some k →
    c.pool.links[k]? = some l → c₁.pool.links[k]? = some l.kill
  /-- A worker that is put into a slot is killed at once. -/
  placed : ∀ i s k fp c₃, Step c₂ (.visit i (.launched s k fp)) c₃ → c₃.pool.linkOf s = some k ∧
    ∃ process, c₃.pool.links[k]? = some ({ process, fingerprint := fp } : WorkerLink).kill

/-- **After `cancel` everybody is rejected, cancelled, or has the answer of its worker.** -/
theorem run_cancelled {before : List Move} (h : Run (start settings processors) before c) :
    (∀ v ∈ c.visits, ∀ r, v.phase.respawns? = some r → r.failure?.isSome = true) ∧
      ∀ c₁ later c₂, Step c .cancel c₁ → Run c₁ later c₂ → Cancelled before c c₁ later c₂ := by
  refine ⟨fun v hv r => h.respawns hv, fun c₁ later c₂ hcancel hlater => ?_⟩
  have h₁ := h.snoc hcancel
  have h₂ := h₁.append hlater
  obtain ⟨hcan, rfl⟩ : c.pool.cancelled = false ∧ c₁ = { c.wake with pool := c.pool.cancel } := by
    cases hcancel with
    | cancel hcan => exact ⟨hcan, rfl⟩
  have hcan₁ : c.pool.cancel.cancelled = true := by rw [Pool.cancel_eq hcan]
  have hcan₂ : c₂.pool.cancelled = true := hlater.keeps.cancelled hcan₁
  have hvisits (i : Nat) : (c.visits.map Visit.wake)[i]? = c.visits[i]?.map Visit.wake :=
    List.getElem?_map
  constructor
  case late =>
    intro i w hw hlate
    have hstart (v : Visit) (hv : (c.visits.map Visit.wake)[i]? = some v) : v.IsLate := by
      rw [hvisits] at hv
      obtain ⟨u, hu, rfl⟩ := Option.map_eq_some_iff.1 hv
      exact told_isLate (Or.inr rfl) (Or.inl (hlate u hu))
    refine (hlater.isLate h₁.sound hcan₁ hstart hw).imp_right (And.imp_left fun hnone => ?_)
    exact Option.map_eq_none_iff.1 ((hvisits i).symm.trans hnone)
  case noted =>
    intro i v w r hv hnote hw hr
    have hv₁ : (c.visits.map Visit.wake)[i]? = some v.wake := by rw [hvisits, hv]; rfl
    obtain ⟨w', hw', hg⟩ := hlater.isGivenUp h₁.sound hcan₁ hv₁ (Or.inl hnote)
    obtain rfl := Option.some.inj (hw.symm.trans hw')
    rcases hg with hg | ⟨r', hr', hg⟩
    · simp [hr, Phase.note?] at hg
    · obtain rfl : r = r' := by simpa [hr, Phase.counted?] using hr'
      refine hg.imp_left fun ha => ⟨ha, h₂.truthful.genuine i w r hw ?_ ha⟩
      rw [hr]
      rfl
  case goes_on =>
    intro i w hw
    exact h₂.visit_goes_on hw (h₂.not_asleep hcan₂ w (List.mem_of_getElem? hw))
  case bounded =>
    intro i
    have hrank := hlater.rank_le hcan₁ i
    cases hw : c₂.visits[i]? with
    | none => exact (hrank.1 hw) ▸ Nat.zero_le _
    | some w => exact Nat.le_trans (Nat.le_add_right _ _) (hrank.2 w hw)
  case killed =>
    intro s k l hbusy hs hl
    rw [Pool.cancel_eq hcan]
    refine (WorkerLink.getElem?_foldl_kill _ _ k).trans ?_
    rw [hl, Option.map_some, if_pos (Pool.mem_busyLinks.2 ⟨s, hbusy, hs⟩)]
  case placed =>
    intro i s k fp c₃ hstep
    refine ⟨hstep.linkOf_launched h₂.sound, ?_⟩
    cases hstep with
    | visit hi hv => exact hv.change.killed hcan₂

/-- One is in a call, one waits for the slot, and one comes later. -/
theorem run_cancelled_three : ∃ before c c₁ later c₂,
    Run (start { size := 1 } 4) before c ∧ Cancelled before c c₁ later c₂ ∧
    c₂.visits.map (·.phase) =
      [.done (.failed 7 .cancelled "cancelled: worker 100 died (signal 9)"),
        .done (.failed 8 .cancelled "cancelled before dispatch"),
        .done (.failed 9 .rejected "coordinator was cancelled")] := by
  have come (id : UInt64) (c : Traffic) : Step c (.come ⟨id, [], []⟩ ⟨⟨id, [], []⟩, false⟩) _ :=
    .come rfl rfl
  have cancel {moves : List Move} {c : Traffic} (_ : Run (start { size := 1 } 4) moves c)
      (hc : c.pool.cancelled = false) : Step c .cancel _ := .cancel hc
  have begun {c c₁ : Traffic} (_ : Step c .cancel c₁) : Run c₁ [] c₁ := .nil
  have h₁ := (Run.nil (c := start { size := 1 } 4)).snoc (come 7 _)
  have h₂ := h₁.snoc (.visit (i := 0) rfl (.register rfl))
  have h₃ := h₂.snoc (.visit (i := 0) rfl (.accept rfl))
  have h₄ := h₃.snoc (.visit (i := 0) rfl (.dispatch rfl))
  have h₅ := h₄.snoc (.visit (i := 0) rfl (.prepare rfl))
  have h₆ := h₅.snoc (.visit (i := 0) rfl (.launch 100 rfl))
  have h₇ := h₆.snoc (.visit (i := 0) rfl (.fetch rfl))
  have h₈ := h₇.snoc (.visit (i := 0) rfl (.send rfl rfl))
  have h₉ := h₈.snoc (come 8 _)
  have h₁₀ := h₉.snoc (.visit (i := 1) rfl (.register rfl))
  have h₁₁ := h₁₀.snoc (.visit (i := 1) rfl (.accept rfl))
  have h₁₂ := h₁₁.snoc (.visit (i := 1) rfl (.awaitSlot rfl))
  have hcancel := cancel h₁₂ rfl
  have l₁ := (begun hcancel).snoc (.visit (i := 1) rfl (.withdraw rfl))
  have l₂ := l₁.snoc (.visit (i := 0) rfl (.reply (-1) ⟨.ok, [], true, "signal 9"⟩ rfl))
  have l₃ := l₂.snoc (.visit (i := 0) rfl (.settle rfl))
  have l₄ := l₃.snoc (.visit (i := 0) rfl (.bury rfl))
  have l₅ := l₄.snoc (.visit (i := 0) rfl (.free rfl))
  have l₆ := l₅.snoc (come 9 _)
  have l₇ := l₆.snoc (.visit (i := 2) rfl (.register rfl))
  exact ⟨_, _, _, _, _, h₁₂, (run_cancelled h₁₂).2 _ _ _ hcancel l₇, rfl⟩

end Traffic

end Rebuild
