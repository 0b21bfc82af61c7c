/-
  How a pool comes to an end.

  Who closes a pool waits until nobody is admitted, takes the workers out of all slots and ends
  them one after the other.

  * `Admits`: who was admitted has a place, or a result;
  * `Step.vacant`: once somebody has drained the pool, its slots are empty;
  * `Ending`: what someone is to end ends, and with each own step one more;
  * `Closers`: who sleeps until nobody is admitted is not forgotten.

  `Traffic.run_drained` collects what holds when somebody has closed the pool, and
  `Traffic.run_closes` says that nobody is kept from it.
-/
import Rebuild.Proofs.Worker.Progress

namespace Rebuild

namespace Visit.Change

variable {p p' : Pool} {v v' : Visit} {e : Event}

/-- Who is admitted stays so until there is a result. -/
theorem isAdmitted_kept (h : Change p v e p' v') (hv : v.phase.isAdmitted = true) :
    v'.phase.isAdmitted = true ∨ ∃ r, v'.phase = .done r := by
  cases h with
  | withdraw | free => exact Or.inr ⟨_, rfl⟩
  | refuse | register | cancelAtDoor | closeAtDoor | awaitPlace => cases hv
  | _ => exact Or.inl rfl

theorem isAdmitted_of_admitted {t : Nat} (h : Change p v (.admitted t) p' v') :
    v'.phase.isAdmitted = true ∧ p.closing = false := by
  cases h with
  | accept _ hcl => exact ⟨rfl, hcl⟩

end Visit.Change

namespace Traffic

variable {c c' : Traffic} {m : Move} {moves later : List Move} {settings : PoolSettings}
  {processors : Nat}

/-! ## Who was admitted -/

/-- Who was admitted has a place, or a result. -/
def Admits (moves : List Move) (c : Traffic) : Prop :=
  ∀ i t, .visit i (.admitted t) ∈ moves →
    ∃ v, c.visits[i]? = some v ∧ (v.phase.isAdmitted = true ∨ ∃ r, v.phase = .done r)

theorem Step.admits (h : Step c m c') (hc : Admits moves c) : Admits (moves ++ [m]) c' := by
  intro i t hm
  rcases List.mem_append.1 hm with hm | hm
  · obtain ⟨v, hi, hv⟩ := hc i t hm
    obtain ⟨w, hw, ⟨-, hwv⟩ | ⟨e, v', -, hch, hwv⟩⟩ := h.of_visit hi
    · exact ⟨w, hw, hwv.phase ▸ hv⟩
    · refine ⟨w, hw, ?_⟩
      rw [hwv.phase]
      rcases hv with hv | ⟨r, hv⟩
      · exact hch.isAdmitted_kept hv
      · exact absurd hv (hch.ne_done r)
  · obtain rfl := List.mem_singleton.1 hm
    cases h with
    | @visit _ _ v v' p hi hv =>
      exact ⟨v', getElem?_set_same hi v', Or.inl hv.change.isAdmitted_of_admitted.1⟩

theorem Run.admits (h : Run (start settings processors) moves c) : Admits moves c := by
  induction h with
  | nil => intro i t hm; cases hm
  | snoc _ hs ih => exact hs.admits ih

/-- If nobody is admitted, whoever was has a result. -/
theorem Run.done_of_admitted (h : Run (start settings processors) moves c)
    (hzero : c.pool.admitted = 0) {i t : Nat} (hm : .visit i (.admitted t) ∈ moves) :
    ∃ v r, c.visits[i]? = some v ∧ v.phase = .done r := by
  obtain ⟨v, hi, hv | ⟨r, hv⟩⟩ := h.admits i t hm
  · rw [h.sound.admitted, List.countP_eq_zero] at hzero
    exact absurd hv (hzero v (List.mem_of_getElem? hi))
  · exact ⟨v, r, hi, hv⟩

/-- Nobody is admitted to a pool that somebody closes. -/
theorem Step.not_admitted (h : Step c m c') (hc : c.pool.closing = true) (i t : Nat) :
    m ≠ .visit i (.admitted t) := by
  rintro rfl
  cases h with
  | visit _ hv => simp [hv.change.isAdmitted_of_admitted.2] at hc

/-- Only who is admitted launches workers. -/
theorem Step.not_launched (h : Step c m c') (hs : c.pool.Sound c.visits)
    (hzero : c.pool.admitted = 0) (i s k : Nat) (fp : Text) :
    m ≠ .visit i (.launched s k fp) := by
  rintro rfl
  cases h with
  | visit hi hv =>
    exact hs.admitted_ne_zero (List.mem_of_getElem? hi) hv.change.slot?_of_launched hzero

/-! ## Who closes the pool -/

/-- Somebody has drained the pool. -/
def IsDrained (c : Traffic) : Prop := ∃ d ∈ c.closings, ∀ asleep, d ≠ .waiting asleep

/-- Who closes the pool goes on by own moves. -/
theorem Step.closing_kept (h : Step c m c') {j : Nat} {d : Closing}
    (hj : c.closings[j]? = some d) (hm : m ≠ .closing j) :
    c'.closings[j]? = some d ∨ c'.closings[j]? = some d.wake := by
  have hwake : (c.closings.map Closing.wake)[j]? = some d.wake := by simp [hj]
  have hset {i : Nat} {d₀ d' : Closing} (hi : c.closings[i]? = some d₀)
      (hm : Move.closing i ≠ .closing j) : (c.closings.set i d')[j]? = some d := by
    rw [getElem?_set_of_some hi, if_neg fun hij => hm (by rw [hij]), hj]
  cases h with
  | come | skip | stir => exact Or.inl hj
  | @visit i e v v' p =>
    rcases pass_closings c i e p v' with hcl | hcl <;> rw [hcl]
    · exact Or.inl hj
    · exact Or.inr hwake
  | tell | cancel => exact Or.inr hwake
  | close =>
    have hlt := (List.getElem?_eq_some_iff.1 hwake).1
    exact Or.inr ((List.getElem?_append_left hlt).trans hwake)
  | rest hi | stirClosing hi | drain hi | stop hi | stopped hi => exact Or.inl (hset hi hm)

theorem Step.returned (h : Step c m c') {j : Nat} (hj : c.closings[j]? = some .returned) :
    c'.closings[j]? = some .returned := by
  by_cases hm : m = .closing j
  · subst hm
    cases h with
    | rest hi | stirClosing hi | drain hi | stop hi | stopped hi => cases hj.symm.trans hi
  · exact (h.closing_kept hj hm).elim id id

theorem Run.returned (h : Run c later c') {j : Nat} (hj : c.closings[j]? = some .returned) :
    c'.closings[j]? = some .returned := by
  induction h with
  | nil => exact hj
  | snoc _ hs ih => exact hs.returned ih

theorem isDrained_of_returned {j : Nat} (hj : c.closings[j]? = some .returned) : c.IsDrained :=
  ⟨_, List.mem_of_getElem? hj, nofun⟩

theorem Staff.closing_of_isDrained (h : Staff moves c) (hd : c.IsDrained) :
    c.pool.closing = true ∧ c.pool.admitted = 0 := by
  obtain ⟨d, hd, hwait⟩ := hd
  exact ⟨h.closing (List.ne_nil_of_mem hd), h.drained d hd hwait⟩

/-- Once somebody has drained the pool, its slots are empty. -/
theorem Step.vacant (h : Step c m c') (hs : c.pool.Sound c.visits) (hc : Staff moves c)
    (hold : c.IsDrained → ∀ s, c.pool.linkOf s = none) (hd : c'.IsDrained) (s : Nat) :
    c'.pool.linkOf s = none := by
  -- what was drained before stays empty, as nobody has a slot to launch a worker for
  have hkept (hd : c.IsDrained) : c'.pool.linkOf s = none := by
    by_contra hsome
    obtain ⟨k, hk⟩ := Option.ne_none_iff_exists'.1 hsome
    rcases h.of_linkOf hk with hk | ⟨i, fp, hm⟩
    · simp [hold hd s] at hk
    · exact h.not_launched hs (hc.closing_of_isDrained hd).2 i s k fp hm
  obtain ⟨d, hd, hwait⟩ := hd
  have hset {i : Nat} {d' : Closing} (hd : d ∈ c.closings.set i d') (hne : d ≠ d') :
      c.IsDrained := ⟨d, (List.mem_or_eq_of_mem_set hd).resolve_right hne, hwait⟩
  cases h with
  | drain _ hp =>
    obtain ⟨-, rfl, -⟩ := Pool.drain?_eq_some_iff.1 hp
    simp [Pool.linkOf, Option.bind_eq_none_iff]
  | rest | stirClosing => exact hkept (hset hd (hwait _))
  | stop hi | stopped hi => exact hkept ⟨_, List.mem_of_getElem? hi, by simp⟩
  | come | skip | stir => exact hkept ⟨d, hd, hwait⟩
  | @visit i e v v' p =>
    refine hkept ⟨d, ?_, hwait⟩
    rcases pass_closings c i e p v' with hcl | hcl <;> rw [hcl] at hd
    · exact hd
    · exact (mem_wake hwait).1 hd
  | tell | cancel => exact hkept ⟨d, (mem_wake hwait).1 hd, hwait⟩
  | close =>
    rcases List.mem_append.1 hd with hd | hd
    · exact hkept ⟨d, (mem_wake hwait).1 hd, hwait⟩
    · exact absurd (List.mem_singleton.1 hd) (hwait false)

theorem Run.vacant (h : Run (start settings processors) moves c) (hd : c.IsDrained) :
    ∀ s, c.pool.linkOf s = none := by
  induction h with
  | nil => obtain ⟨d, hd, -⟩ := hd; simp [start] at hd
  | snoc hr hs ih => exact hs.vacant hr.sound hr.staff ih hd

/-! ## Who ends the workers -/

/-- The worker behind the link has ended, and was waited for. -/
def Ended (c : Traffic) (k : Nat) : Prop := ∃ l, c.pool.links[k]? = some l ∧ l.reaped = true

theorem Step.ended (h : Step c m c') (hc : Staff moves c) {k : Nat} (hk : c.Ended k) :
    c'.Ended k := by
  obtain ⟨l, hl, hr⟩ := hk
  obtain ⟨l', hl', haged⟩ := (h.worked hc.relies).old k l hl
  exact ⟨l', hl', haged.reaped hr⟩

/-- Link `k` is ended, or someone still has to end it, and has `n` of them to end together with
    those of the moves. -/
def Ending (j k n : Nat) (later : List Move) (c : Traffic) : Prop :=
  c.Ended k ∨ ∃ ks, c.closings[j]? = some (.stopping ks) ∧ k ∈ ks ∧
    later.count (.closing j) + ks.length = n

variable {j k n : Nat}

theorem Step.ending (h : Step c m c') (hc : Staff moves c) (hk : k < c.pool.links.length)
    (hend : Ending j k n later c) : Ending j k n (later ++ [m]) c' := by
  rcases hend with hend | ⟨ks, hj, hmem, hcount⟩
  · exact Or.inl (h.ended hc hend)
  · rw [Ending, List.count_append, List.count_singleton]
    by_cases hm : m = .closing j
    · subst hm
      cases h with
      | rest hi | stirClosing hi | drain hi => cases hj.symm.trans hi
      | @stop _ k₁ links hi =>
        obtain rfl : ks = k₁ :: links := by cases hj.symm.trans hi; rfl
        rcases List.mem_cons.1 hmem with rfl | hmem
        · refine Or.inl ⟨(c.pool.links[k]).reap, ?_, rfl⟩
          simp [Pool.updateLink, List.getElem?_eq_getElem hk]
        · refine Or.inr ⟨links, getElem?_set_same hi _, hmem, ?_⟩
          simp only [List.length_cons] at hcount
          simp
          omega
      | stopped hi =>
        obtain rfl : ks = [] := by cases hj.symm.trans hi; rfl
        cases hmem
    · refine Or.inr ⟨ks, (h.closing_kept hj hm).elim id id, hmem, ?_⟩
      simpa [hm] using hcount

theorem Run.ending (h : Run (start settings processors) moves c) {ks : List Nat}
    (hj : c.closings[j]? = some (.stopping ks)) (hmem : k ∈ ks) {s : Nat} {fp : Text}
    (hl : Launched moves s k fp) (hr : Run c later c') : Ending j k ks.length later c' := by
  induction hr with
  | nil => exact Or.inr ⟨ks, hj, hmem, by simp⟩
  | @snoc later c₁ c₂ m hr hs ih =>
    have hc := (h.append hr).staff
    have hl : Launched (moves ++ later) s k fp := hl.imp fun _ => List.mem_append_left _
    exact hs.ending hc (hc.ledger.fresh s k fp hl) ih

theorem Ending.goes_on (h : Ending j k n later c) :
    c.Ended k ∨ later.count (.closing j) < n ∧ ∃ c', Step c (.closing j) c' := by
  refine h.imp_right ?_
  rintro ⟨ks, hj, hmem, rfl⟩
  obtain ⟨x, xs, rfl⟩ := List.exists_cons_of_ne_nil (List.ne_nil_of_mem hmem)
  exact ⟨by simp, _, .stop hj⟩

theorem Ending.ended (h : Ending j k n later c) (hj : c.closings[j]? = some .returned) :
    c.Ended k := by
  refine h.elim id ?_
  rintro ⟨ks, hks, -⟩
  cases hj.symm.trans hks

/-! ## A closed pool -/

/-- What holds from the moment on at which someone who closes the pool returns. -/
structure Drained (moves : List Move) (c : Traffic) : Prop where
  /-- Who was admitted has a result. -/
  completed : ∀ i t, .visit i (.admitted t) ∈ moves →
    ∃ v r, c.visits[i]? = some v ∧ v.phase = .done r
  refused : ∀ later c', Run c later c' → ∀ i t, .visit i (.admitted t) ∉ later
  empty : ∀ later c', Run c later c' → ∀ s, c'.pool.linkOf s = none
  unstaffed : ∀ later c', Run c later c' → ∀ s k fp, ¬ Launched later s k fp
  /-- A worker has ended, or is with someone else who closes the pool. -/
  handed : ∀ s k fp, Launched moves s k fp →
    c.Ended k ∨ ∃ (j : Nat) (ks : List Nat), c.closings[j]? = some (.stopping ks) ∧ k ∈ ks
  /-- Who has a worker ends it with one of the next own steps, of which there are as many as
      workers. -/
  stops : ∀ (s k : Nat) (fp : Text) (j : Nat) (ks : List Nat), Launched moves s k fp →
    c.closings[j]? = some (.stopping ks) → k ∈ ks → ∀ later c', Run c later c' →
      c'.Ended k ∨ later.count (.closing j) < ks.length ∧ ∃ c'', Step c' (.closing j) c''
  /-- Nobody returns before that. -/
  reaped : ∀ (s k : Nat) (fp : Text) (j : Nat) (ks : List Nat), Launched moves s k fp →
    c.closings[j]? = some (.stopping ks) → k ∈ ks → ∀ later c', Run c later c' →
      c'.closings[j]? = some .returned → c'.Ended k

/-- **When someone has closed the pool, all work is done, and no worker is left behind.** -/
theorem run_drained (h : Run (start settings processors) moves c) {i : Nat}
    (hi : c.closings[i]? = some .returned) : Drained moves c := by
  have hs := h.sound
  have hc := h.staff
  obtain ⟨hclosing, hzero⟩ := hc.closing_of_isDrained (isDrained_of_returned hi)
  constructor
  case completed => exact fun j t => h.done_of_admitted hzero
  case refused =>
    intro later c' hrun j t hm
    obtain ⟨before, c₁, c₂, hr, hstep⟩ := hrun.exists_step hm
    exact hstep.not_admitted (hr.keeps.closing hclosing) j t rfl
  case empty =>
    intro later c' hrun
    exact (h.append hrun).vacant (isDrained_of_returned (hrun.returned hi))
  case unstaffed =>
    rintro later c' hrun s k fp ⟨j, hm⟩
    obtain ⟨before, c₁, c₂, hr, hstep⟩ := hrun.exists_step hm
    have hr' := h.append hr
    have hd := hr'.staff.closing_of_isDrained (isDrained_of_returned (hr.returned hi))
    exact hstep.not_launched hr'.sound hd.2 j s k fp rfl
  case handed =>
    intro s k fp hl
    have hk := List.getElem?_eq_getElem (hc.ledger.fresh s k fp hl)
    rcases hc.whereabouts s k fp _ hl hk with hr | hlink | ⟨v, hv, hlink⟩ | ⟨ks, hks, hmem⟩
    · exact Or.inl ⟨_, hk, hr⟩
    · simp [h.vacant (isDrained_of_returned hi) s] at hlink
    · -- who holds a link has a slot, but nobody is admitted
      exact absurd hzero (hs.admitted_ne_zero hv (Phase.slot?_of_link? hlink))
    · obtain ⟨j, hj⟩ := List.mem_iff_getElem?.1 hks
      exact Or.inr ⟨j, ks, hj, hmem⟩
  case stops =>
    intro s k fp j ks hl hj hmem later c' hrun
    exact (h.ending hj hmem hl hrun).goes_on
  case reaped =>
    intro s k fp j ks hl hj hmem later c' hrun
    exact (h.ending hj hmem hl hrun).ended

/-- Two close the pool while a lost worker is replaced.  The second returns when the first has
    the new worker still to end. -/
theorem run_drained_late : ∃ moves c, Run (start { size := 1 } 4) moves c ∧ Drained moves c ∧
    Launched moves 0 0 [] ∧ c.Ended 0 ∧ Launched moves 0 1 [] ∧
    c.closings = [.stopping [1], .returned] := by
  have come (c : Traffic) : Step c (.come ⟨7, [], []⟩ ⟨⟨7, [], []⟩, false⟩) _ := .come rfl rfl
  have h₁ := (Run.nil (c := start { size := 1 } 4)).snoc (come _)
  have h₂ := h₁.snoc (.visit (i := 0) rfl (.register rfl))
  have h₃ := h₂.snoc (.visit (i := 0) rfl (.accept rfl))
  have h₄ := h₃.snoc (.visit (i := 0) rfl (.dispatch rfl))
  have h₅ := h₄.snoc (.visit (i := 0) rfl (.prepare rfl))
  have h₆ := h₅.snoc (.visit (i := 0) rfl (.launch 100 rfl))
  have h₇ := h₆.snoc (.visit (i := 0) rfl (.fetch rfl))
  have h₈ := h₇.snoc (.visit (i := 0) rfl (.send rfl rfl))
  have h₉ := h₈.snoc (.visit (i := 0) rfl (.reply (-1) ⟨.ok, [], true, "signal 9"⟩ rfl))
  have h₁₀ := h₉.snoc (.visit (i := 0) rfl (.settle rfl))
  have h₁₁ := h₁₀.snoc .close
  have h₁₂ := h₁₁.snoc (.rest (i := 0) rfl rfl)
  have h₁₃ := h₁₂.snoc (.visit (i := 0) rfl (.bury rfl))
  have h₁₄ := h₁₃.snoc (.visit (i := 0) rfl (.replace 101 rfl))
  have h₁₅ := h₁₄.snoc (.visit (i := 0) rfl (.free rfl))
  have h₁₆ := h₁₅.snoc .close
  have h₁₇ := h₁₆.snoc (.drain (i := 0) rfl rfl)
  have h₁₈ := h₁₇.snoc (.drain (i := 1) rfl rfl)
  have h₁₉ := h₁₈.snoc (.stopped (i := 1) rfl)
  exact ⟨_, _, h₁₉, run_drained h₁₉ (i := 1) rfl, ⟨0, by decide⟩, ⟨_, rfl, rfl⟩,
    ⟨0, by decide⟩, rfl⟩

/-! ## Nobody is kept from closing the pool -/

/-- Who sleeps until nobody is admitted is told of it. -/
def Closers (c : Traffic) : Prop :=
  .waiting true ∈ c.closings → c.pool.admitted ≠ 0 ∨ c.untold ≠ 0

theorem not_mem_wake (ds : List Closing) : .waiting true ∉ ds.map Closing.wake := by
  intro h
  obtain ⟨d, -, hd⟩ := List.mem_map.1 h
  cases d <;> cases hd

theorem Step.closers (h : Step c m c') (hc : c.Closers) : c'.Closers := by
  have hset {i : Nat} {d : Closing} (hd : .waiting true ∈ c.closings.set i d)
      (hne : .waiting true ≠ d) : .waiting true ∈ c.closings :=
    (List.mem_or_eq_of_mem_set hd).resolve_right hne
  cases h with
  | come | skip | stir => exact hc
  | visit _ hv =>
    cases hv.change with
    | dispatch | withdraw => exact fun hd => absurd hd (not_mem_wake _)
    | accept => exact fun _ => Or.inl (Nat.succ_ne_zero _)
    | free => exact fun _ => Or.inr (Nat.succ_ne_zero _)
    | _ => exact hc
  | tell | cancel => exact fun hd => absurd hd (not_mem_wake _)
  | close =>
    intro hd
    rcases List.mem_append.1 hd with hd | hd
    · exact absurd hd (not_mem_wake _)
    · cases List.mem_singleton.1 hd
  | rest _ hp =>
    refine fun _ => Or.inl fun (hzero : c.pool.admitted = 0) => ?_
    simp [Pool.drain?, hzero] at hp
  | stirClosing | stop | stopped => exact fun hd => hc (hset hd nofun)
  | drain _ hp =>
    obtain ⟨-, rfl, -⟩ := Pool.drain?_eq_some_iff.1 hp
    exact fun hd => hc (hset hd nofun)

theorem Run.closers (h : Run (start settings processors) moves c) : c.Closers := by
  induction h with
  | nil => intro hd; cases hd
  | snoc _ hs ih => exact hs.closers ih

/-- **As long as someone has not closed the pool, somebody can go on.** -/
theorem run_closes (h : Run (start settings processors) moves c)
    (hcap : settings.workers processors + settings.queueCapacity.toNat < 2 ^ 64)
    {d : Closing} (hj : c.closings[j]? = some d) (hd : d ≠ .returned) :
    ∃ m c', Step c m c' ∧
      (m = .tell ∨ (∃ i e, m = .visit i e) ∨ m = .closing j ∧ d ≠ .waiting true) := by
  cases d with
  | returned => exact absurd rfl hd
  | stopping ks =>
    cases ks with
    | nil => exact ⟨_, _, .stopped hj, by simp⟩
    | cons k ks => exact ⟨_, _, .stop hj, by simp⟩
  | waiting asleep =>
    cases asleep with
    | false =>
      cases hp : c.pool.drain? with
      | none => exact ⟨_, _, .rest hj hp, by simp⟩
      | some next => exact ⟨_, _, .drain hj hp, by simp⟩
    | true =>
      rcases h.closers (List.mem_of_getElem? hj) with hadmitted | huntold
      · -- somebody is admitted, and has no result
        rw [h.sound.admitted, ne_eq, List.countP_eq_zero] at hadmitted
        obtain ⟨v, hv, hadm⟩ : ∃ v ∈ c.visits, v.phase.isAdmitted = true := by
          by_contra hnone
          exact hadmitted fun v hv hadm => hnone ⟨v, hv, hadm⟩
        have hdone (r : WorkResult) : v.phase ≠ .done r := by
          intro hr
          simp [hr, Phase.isAdmitted, Phase.ticket?, Phase.slot?] at hadm
        obtain ⟨m, c', hs, hm⟩ := run_goes_on h hcap hv hdone
        exact ⟨m, c', hs, hm.imp_right Or.inl⟩
      · obtain ⟨n, hn⟩ := Nat.exists_eq_succ_of_ne_zero huntold
        exact ⟨_, _, .tell hn, Or.inl rfl⟩

end Traffic

end Rebuild
