/-
  The workers of a pool, from launch to end.

  Every link is launched for one slot and one fingerprint.  From then on it is in its slot,
  with the visit that has taken it out, with someone who closes the pool, or it has ended
  (`Staff.whereabouts`).  `Pool.Relies` is what a visit may rely on while it has a slot;
  `Traffic.Run.staff` is the run.

  `Traffic.run_reuse` collects what this says of the next step.
-/
import Rebuild.Proofs.Worker.Traffic

namespace Rebuild

/-! ## Links of slots -/

namespace Pool

variable (p : Pool) (i s : Nat)

@[simp] theorem linkOf_count (f : PoolStats → PoolStats) : (p.count f).linkOf s = p.linkOf s := rfl

@[simp] theorem linkOf_forget (id : UInt64) : (p.forget id).linkOf s = p.linkOf s := rfl

@[simp] theorem linkOf_updateLink (f : WorkerLink → WorkerLink) :
    (p.updateLink i f).linkOf s = p.linkOf s := rfl

theorem linkOf_updateSlot (f : Slot → Slot) : (p.updateSlot i f).linkOf s =
    if i = s then p.slots[s]?.bind fun x => (f x).link else p.linkOf s := by
  simp only [linkOf, updateSlot, List.getElem?_modify]
  split_ifs <;> cases p.slots[s]? <;> rfl

@[simp] theorem linkOf_setBusy (busy : Bool) :
    (p.updateSlot i fun x => { x with busy }).linkOf s = p.linkOf s := by
  rw [linkOf_updateSlot]
  simp [linkOf]

theorem linkOf_empty : (p.updateSlot i fun x => { x with link := none }).linkOf s =
    if i = s then none else p.linkOf s := by
  rw [linkOf_updateSlot]
  simp

theorem linkOf_place (process : Nat) (fingerprint : Text) :
    (p.place i process fingerprint).linkOf s =
      if i = s then p.slots[s]?.map fun _ => p.links.length else p.linkOf s := by
  change (p.updateSlot i fun x => { x with link := some p.links.length }).linkOf s = _
  rw [linkOf_updateSlot]
  split_ifs <;> cases p.slots[s]? <;> rfl

end Pool

/-! ## What a visit relies on -/

/-- The slot and the link that a visit works on. -/
def Phase.link? : Phase → Option (Nat × Nat)
  | .retiring _ s k _ | .calling _ s k | .burying s k _ _ => some (s, k)
  | _ => none

theorem Phase.slot?_of_link? {ph : Phase} {s k : Nat} (h : ph.link? = some (s, k)) :
    ph.slot? = some s := by
  cases ph <;> simp_all [link?, slot?]

namespace Pool

/-- The link in the slot can take items for the fingerprint, unless the pool is cancelled. -/
structure Fits (p : Pool) (s k : Nat) (l : WorkerLink) (fingerprint : Text) : Prop where
  slot : p.linkOf s = some k
  link : p.links[k]? = some l
  fingerprint : l.fingerprint = fingerprint
  fresh : p.wornOut l = false
  sound : l.broken = true → p.cancelled = true

/-- What a visit relies on while it has a slot. -/
def Relies (p : Pool) (v : Visit) : Prop :=
  match v.phase with
  | .retiring _ s _ _ | .launching _ s => p.linkOf s = none
  | .ready item s => ∃ k l, p.Fits s k l item.fingerprint
  | .calling item s k => ∃ l, p.Fits s k l item.fingerprint ∧
      ∀ l₀, v.stance = .calling l₀ → l = { l₀ with broken := l.broken }
  | .settling s r => r.ok = true → ∀ k l, p.linkOf s = some k → p.links[k]? = some l →
      l.broken = true → p.cancelled = true
  | .burying s _ respawn r => p.linkOf s = none ∧ (respawn.isSome = true → r.ok = false)
  | .replacing s _ r => p.linkOf s = none ∧ r.ok = false
  | _ => True

end Pool

/-- What a visit relies on only concerns its slot and the link there, which may break when the
    pool is cancelled. -/
theorem Pool.Relies.congr {p p' : Pool} {v : Visit} (h : p.Relies v)
    (hsettings : p'.settings = p.settings) (hcan : p.cancelled = true → p'.cancelled = true)
    (hslot : ∀ s, v.phase.slot? = some s → p'.linkOf s = p.linkOf s)
    (hlink : ∀ s k, v.phase.slot? = some s → p.linkOf s = some k →
      ∃ l b, p.links[k]? = some l ∧ p'.links[k]? = some { l with broken := b } ∧
        (b = true → l.broken = true ∨ p'.cancelled = true)) : p'.Relies v := by
  have hfits {s k : Nat} {l : WorkerLink} {fp : Text} (hs : v.phase.slot? = some s)
      (hl : p.Fits s k l fp) : ∃ b, p'.Fits s k { l with broken := b } fp := by
    obtain ⟨l', b, hl', hb, hsound⟩ := hlink s k hs hl.slot
    obtain rfl := Option.some.inj (hl.link.symm.trans hl')
    refine ⟨b, (hslot s hs).trans hl.slot, hb, hl.fingerprint, ?_, fun h => ?_⟩
    · have hfresh := hl.fresh
      rwa [Pool.wornOut, ← hsettings] at hfresh
    · exact (hsound h).elim (hcan ∘ hl.sound) id
  obtain ⟨_, ph, stance⟩ := v
  cases ph with
  | retiring | launching => exact (hslot _ rfl).trans h
  | burying | replacing => exact ⟨(hslot _ rfl).trans h.1, h.2⟩
  | ready item s =>
    obtain ⟨k, l, hl⟩ := h
    obtain ⟨b, hb⟩ := hfits rfl hl
    exact ⟨k, _, hb⟩
  | calling item s k =>
    obtain ⟨l, hl, hsame⟩ := h
    obtain ⟨b, hb⟩ := hfits rfl hl
    refine ⟨_, hb, fun l₀ h₀ => ?_⟩
    rw [hsame l₀ h₀]
  | settling s r =>
    intro hok k l' hs hl' hbroken
    have hs : p.linkOf s = some k := (hslot s rfl).symm.trans hs
    obtain ⟨l, b, hl, hl'', hsound⟩ := hlink s k rfl hs
    obtain rfl := Option.some.inj (hl''.symm.trans hl')
    exact (hsound hbroken).elim (hcan ∘ h hok k l hs hl) id
  | _ => trivial

theorem Pool.Relies.told {p : Pool} {v w : Visit} (h : p.Relies v) (hw : Traffic.Told v w) :
    p.Relies w := by
  obtain ⟨_, ph, _⟩ := v
  obtain ⟨_, ph', _⟩ := w
  obtain rfl : ph' = ph := hw.phase
  cases ph' with
  | calling item s k =>
    obtain ⟨l, hl, hsame⟩ := h
    exact ⟨l, hl, fun l₀ h₀ => hsame l₀ (hw.calling h₀)⟩
  | _ => exact h

/-! ## What becomes of a link -/

namespace Visit.Event

/-- The worker behind the link has answered. -/
def answers (k : Nat) : Event → Bool
  | .replied link r => link = k ∧ r.IsAnswer
  | _ => false

/-- The call over the link was in vain. -/
def loses (k : Nat) : Event → Bool
  | .replied link r => link = k ∧ ¬ r.IsAnswer
  | _ => false

end Visit.Event

namespace WorkerLink

/-- A link some time later: it is not mended, and counts its answers. -/
structure Aged (l l' : WorkerLink) (answered lost : Bool) : Prop where
  fingerprint : l'.fingerprint = l.fingerprint
  broken : l.broken = true ∨ lost = true → l'.broken = true
  reaped : l.reaped = true → l'.reaped = true
  served : l'.served = l.served + if answered then 1 else 0

variable {l l' l'' : WorkerLink}

theorem Aged.refl (l : WorkerLink) : l.Aged l false false := ⟨rfl, by simp, id, rfl⟩

theorem aged_kill (l : WorkerLink) : l.Aged l.kill false false := ⟨rfl, fun _ => rfl, id, rfl⟩

theorem aged_reap (l : WorkerLink) : l.Aged l.reap false false :=
  ⟨rfl, fun _ => rfl, fun _ => rfl, rfl⟩

theorem Aged.trans (h : l.Aged l' false false) (h' : l'.Aged l'' false false) :
    l.Aged l'' false false := by
  refine ⟨h'.fingerprint.trans h.fingerprint, fun hb => h'.broken (Or.inl (h.broken hb)),
    h'.reaped ∘ h.reaped, ?_⟩
  have := h.served
  have := h'.served
  simp_all

theorem aged_modify {f : WorkerLink → WorkerLink} (hf : ∀ l : WorkerLink, l.Aged (f l) false false)
    {ls : List WorkerLink} {k : Nat} (hl : ls[k]? = some l) (i : Nat) :
    ∃ l', (ls.modify i f)[k]? = some l' ∧ l.Aged l' false false := by
  rw [List.getElem?_modify, hl]
  by_cases hi : i = k
  · exact ⟨f l, by simp [hi], hf l⟩
  · exact ⟨l, by simp [hi], .refl l⟩

theorem aged_foldl_modify {f : WorkerLink → WorkerLink}
    (hf : ∀ l : WorkerLink, l.Aged (f l) false false) {k : Nat} (is : List Nat)
    {ls : List WorkerLink} (hl : ls[k]? = some l) :
    ∃ l', (is.foldl (fun ls i => ls.modify i f) ls)[k]? = some l' ∧ l.Aged l' false false := by
  induction is generalizing ls l with
  | nil => exact ⟨l, hl, .refl l⟩
  | cons i is ih =>
    obtain ⟨l₁, hl₁, ha₁⟩ := aged_modify hf hl i
    obtain ⟨l₂, hl₂, ha₂⟩ := ih hl₁
    exact ⟨l₂, hl₂, ha₁.trans ha₂⟩

theorem length_foldl_modify (f : WorkerLink → WorkerLink) (is : List Nat)
    (ls : List WorkerLink) : (is.foldl (fun ls i => ls.modify i f) ls).length = ls.length := by
  induction is generalizing ls with
  | nil => rfl
  | cons i is ih => exact (ih _).trans (List.length_modify _ _ _)

theorem getElem?_foldl_kill (is : List Nat) (ls : List WorkerLink) (k : Nat) :
    (is.foldl (fun ls i => ls.modify i kill) ls)[k]? =
      ls[k]?.map fun l => if k ∈ is then l.kill else l := by
  induction is generalizing ls with
  | nil => simp
  | cons i is ih =>
    rw [List.foldl_cons, ih, List.getElem?_modify]
    cases ls[k]? with
    | none => rfl
    | some l =>
      by_cases hi : i = k
      · subst hi
        by_cases hk : i ∈ is <;> simp [hk, kill]
      · simp [hi, Ne.symm hi]

end WorkerLink

namespace Visit.Change

variable {p p' : Pool} {v v' : Visit} {e : Event} {s k : Nat}

/-- The links of before are there behind a change. -/
theorem links (h : Change p v e p' v') (hv : p.Relies v) {l : WorkerLink}
    (hl : p.links[k]? = some l) :
    ∃ l', p'.links[k]? = some l' ∧ l.Aged l' (e.answers k) (e.loses k) := by
  cases h with
  | retire | bury | buryFirst => exact WorkerLink.aged_modify WorkerLink.aged_reap hl _
  | launch | launchInVain | replace =>
    have hlt := (List.getElem?_eq_some_iff.1 hl).1
    exact ⟨l, (List.getElem?_append_left hlt).trans hl, .refl l⟩
  | @reply _ item s link l₀ after r hcall =>
    by_cases hk : link = k
    · subst hk
      obtain ⟨l₁, hfits, hsame⟩ := hv
      obtain rfl : l₁ = l := Option.some.inj (hfits.link.symm.trans hl)
      have hsame := hsame l₀ rfl
      refine ⟨{ after with broken := after.broken || l₁.broken }, by simp [Pool.updateLink, hl], ?_⟩
      cases hcall with
      | answered unread hb _ hr =>
        rw [hsame]
        exact ⟨rfl, by simp +contextual [Event.loses, hr], fun h => h, by simp [Event.answers, hr]⟩
      | lost _ hr hb hfp hserved hreaped =>
        rw [hsame]
        exact ⟨hfp, by simp [hb], hreaped, by simp [Event.answers, hr.not_isAnswer, hserved]⟩
    · refine ⟨l, by simp [Pool.updateLink, hk, hl], ?_⟩
      simpa [Event.answers, Event.loses, hk] using WorkerLink.Aged.refl l
  | _ => exact ⟨l, hl, .refl l⟩

/-- A link is new only if a worker was launched. -/
theorem new_link (h : Change p v e p' v') :
    (p'.links.length = p.links.length ∧ ∀ s k fp, e ≠ .launched s k fp) ∨
    ∃ s fp l, v.phase.slot? = some s ∧ e = .launched s p.links.length fp ∧
      p'.links = p.links ++ [l] ∧ l.fingerprint = fp ∧ l.served = 0 ∧ l.broken = p.cancelled := by
  cases h with
  | launch | launchInVain | replace =>
    exact Or.inr ⟨_, _, _, rfl, rfl, rfl, rfl, rfl, rfl⟩
  | retire | bury | buryFirst | reply => exact Or.inl ⟨by simp [Pool.updateLink], by simp⟩
  | _ => exact Or.inl ⟨rfl, by simp⟩

/-- The links of other slots stay. -/
theorem linkOf_other (h : Change p v e p' v') (hs : v.phase.slot? ≠ some s) :
    p'.linkOf s = p.linkOf s := by
  have hother {i : Nat} (hi : some i ≠ some s) (f : Slot → Slot) :
      (p.updateSlot i f).linkOf s = p.linkOf s := by
    rw [Pool.linkOf_updateSlot, if_neg (by simpa using hi)]
  cases h with
  | findBroken | findUnfit | loseLast | lose | launch | launchInVain | replace =>
    exact hother hs _
  | dispatch | free => exact Pool.linkOf_setBusy _ _ _ _
  | register | accept | withdraw => rfl
  | _ => simp

/-- Other links stay as they are. -/
theorem links_other (h : Change p v e p' v') (hk : k < p.links.length)
    (hv : ∀ s, v.phase.link? ≠ some (s, k)) : p'.links[k]? = p.links[k]? := by
  have hother {s i : Nat} (hi : some (s, i) ≠ some (s, k)) (f : WorkerLink → WorkerLink) :
      (p.updateLink i f).links[k]? = p.links[k]? := by
    have hik : i ≠ k := by simpa using hi
    simp [Pool.updateLink, hik]
  cases h with
  | retire | bury | buryFirst | reply => exact hother (hv _) _
  | launch | launchInVain | replace => exact List.getElem?_append_left hk
  | _ => rfl

/-- A link leaves its slot only into the hands of a visit. -/
theorem linkOf_kept (h : Change p v e p' v') (hv : p.Relies v) (hs : p.linkOf s = some k) :
    p'.linkOf s = some k ∨ v'.phase.link? = some (s, k) := by
  by_cases hslot : v.phase.slot? = some s
  · cases h with
    | @findBroken _ _ _ _ _ _ hlink | @findUnfit _ _ _ _ _ _ hlink | @loseLast _ _ _ _ _ hlink
    | @lose _ _ _ _ _ hlink =>
      obtain rfl := Option.some.inj hslot
      obtain rfl := Option.some.inj (hlink.symm.trans hs)
      exact Or.inr rfl
    | launch | launchInVain =>
      obtain rfl := Option.some.inj hslot
      exact absurd hs (by simp [show p.linkOf _ = none from hv])
    | replace =>
      obtain rfl := Option.some.inj hslot
      exact absurd hs (by simp [hv.1])
    | free => exact Or.inl ((Pool.linkOf_setBusy _ _ _ _).trans hs)
    | register | accept | withdraw | dispatch => cases hslot
    | _ => exact Or.inl (by simpa using hs)
  · exact Or.inl ((h.linkOf_other hslot).trans hs)

/-- A link leaves the hands of a visit only into its slot, or when its worker has ended. -/
theorem link?_kept (h : Change p v e p' v') (hv : p.Relies v) {l : WorkerLink}
    (hl : p.links[k]? = some l) (hlink : v.phase.link? = some (s, k)) :
    v'.phase.link? = some (s, k) ∨ p'.linkOf s = some k ∨
      ∃ l', p'.links[k]? = some l' ∧ l'.reaped = true := by
  have hreap : (p.updateLink k WorkerLink.reap).links[k]? = some l.reap := by
    simp [Pool.updateLink, hl]
  cases h with
  | retire | bury | buryFirst =>
    obtain ⟨rfl, rfl⟩ := Prod.mk.inj (Option.some.inj hlink)
    exact Or.inr (Or.inr ⟨_, hreap, rfl⟩)
  | send | keep => exact Or.inl hlink
  | reply =>
    obtain ⟨rfl, rfl⟩ := Prod.mk.inj (Option.some.inj hlink)
    obtain ⟨l, hfits, -⟩ := hv
    exact Or.inr (Or.inl hfits.slot)
  | _ => cases hlink

/-- What is in a slot was there, or was launched for it. -/
theorem of_linkOf (h : Change p v e p' v') (hs : p'.linkOf s = some k) :
    p.linkOf s = some k ∨ ∃ fp, e = .launched s k fp := by
  by_cases hslot : v.phase.slot? = some s
  · cases h with
    | findBroken | findUnfit | loseLast | lose =>
      obtain rfl := Option.some.inj hslot
      simp [Pool.linkOf_empty] at hs
    | launch | launchInVain | replace =>
      obtain rfl := Option.some.inj hslot
      obtain ⟨-, -, rfl⟩ : ∃ x, p.slots[_]? = some x ∧ p.links.length = k := by
        simpa [Pool.linkOf_place] using hs
      exact Or.inr ⟨_, rfl⟩
    | free => exact Or.inl ((Pool.linkOf_setBusy _ _ _ _).symm.trans hs)
    | register | accept | withdraw | dispatch => cases hslot
    | _ => exact Or.inl (by simpa using hs)
  · exact Or.inl ((h.linkOf_other hslot).symm.trans hs)

/-- What a visit works on it did before, or found in its slot. -/
theorem of_link? (h : Change p v e p' v') (hlink : v'.phase.link? = some (s, k)) :
    v.phase.link? = some (s, k) ∨ p.linkOf s = some k := by
  cases h with
  | findBroken _ hk | findUnfit _ hk | fetch hk | loseLast hk | lose hk =>
    obtain ⟨rfl, rfl⟩ := Prod.mk.inj (Option.some.inj hlink)
    exact Or.inr hk
  | send | keep => exact Or.inl hlink
  | _ => cases hlink

/-- **What a visit does gives it what it relies on next.** -/
theorem relies (h : Change p v e p' v') (hv : p.Relies v)
    (hslot : ∀ s, v.phase.slot? = some s → s < p.slots.length)
    (hlink : ∀ s k, p.linkOf s = some k → k < p.links.length) : p'.Relies v' := by
  cases h with
  | @findNone _ _ slot _ hnone =>
    cases hs : p.linkOf slot with
    | none => exact hs
    | some k => simp [hs, List.getElem?_eq_getElem (hlink slot k hs)] at hnone
  | findBroken | findUnfit => exact (p.linkOf_empty _ _).trans (if_pos rfl)
  | findFit hc hs hl hb hfp hw => exact ⟨_, _, hs, hl, hfp, hw, by simp [hb]⟩
  | retire => exact hv
  | @launch _ item slot process hc =>
    refine ⟨p.links.length, _, ?_, List.getElem?_concat_length, rfl, ?_, ?_⟩
    · simp [Pool.linkOf_place, List.getElem?_eq_getElem (hslot slot rfl)]
    · simp [Pool.wornOut]
    · simp [hc]
  | findCancelled | launchFailed | launchInVain | fetchNone => exact fun hok => by cases hok
  | @fetch _ item slot k hs =>
    obtain ⟨k', l, hfits⟩ := hv
    obtain rfl := Option.some.inj (hs.symm.trans hfits.slot)
    exact ⟨l, hfits, by simp⟩
  | @send _ item slot k l hl | @keep _ item slot k l hl =>
    obtain ⟨l', hfits, -⟩ := hv
    obtain rfl := Option.some.inj (hl.symm.trans hfits.link)
    exact ⟨l, hfits, fun l₀ h₀ => by cases h₀; rfl⟩
  | @reply _ item slot k l₀ after r hcall =>
    obtain ⟨l, hfits, hsame⟩ := hv
    intro hok k' l' hs hl' hb
    obtain rfl := Option.some.inj (hfits.slot.symm.trans hs)
    have hl' : { after with broken := after.broken || l.broken } = l' := by
      simpa [Pool.updateLink, hfits.link] using hl'
    cases hcall with
    | answered _ h₀ => exact hfits.sound (by simpa [← hl', h₀] using hb)
    | lost _ hr => simp [hr.not_ok] at hok
  | loseLast => exact ⟨(p.linkOf_empty _ _).trans (if_pos rfl), by simp⟩
  | @lose _ slot k l r hs hl hb hc =>
    refine ⟨(p.linkOf_empty _ _).trans (if_pos rfl), fun _ => ?_⟩
    rw [blame_ok]
    by_contra hok
    have hcan : p.cancelled = true := hv (by simpa using hok) k l hs hl hb
    simp [hc] at hcan
  | bury | settle | leaveEmpty | free | replace => trivial
  | buryFirst => exact ⟨hv.1, hv.2 rfl⟩
  | _ => trivial

/-- Who gets an answer has called a worker that was not worn out. -/
theorem not_wornOut (h : Change p v e p' v') (hv : p.Relies v)
    (he : e.answers k = true ∨ e.loses k = true) :
    ∃ l, p.links[k]? = some l ∧ p.wornOut l = false := by
  cases h with
  | reply =>
    obtain ⟨l, hfits, -⟩ := hv
    obtain rfl : _ = k := by
      rcases he with he | he
      · exact (by simpa [Event.answers] using he : _ ∧ _).1
      · exact (by simpa [Event.loses] using he : _ ∧ _).1
    exact ⟨l, hfits.link, hfits.fresh⟩
  | _ => rcases he with he | he <;> cases he

theorem slot?_of_launched {fp : Text} (h : Change p v (.launched s k fp) p' v') :
    v.phase.slot? = some s := by
  cases h <;> rfl

/-- The launched worker is in its slot. -/
theorem linkOf_launched {fp : Text} (h : Change p v (.launched s k fp) p' v')
    (hs : s < p.slots.length) : p'.linkOf s = some k := by
  cases h with
  | launch | launchInVain | replace =>
    simp [Pool.linkOf_place, List.getElem?_eq_getElem hs]

end Visit.Change

namespace Traffic

variable {c c' : Traffic} {m : Move} {moves : List Move} {settings : PoolSettings}
  {processors : Nat}

/-! ## The ledger of links -/

/-- The worker behind link `k` was launched for the slot and the fingerprint. -/
def Launched (moves : List Move) (s k : Nat) (fp : Text) : Prop :=
  ∃ i, Move.visit i (.launched s k fp) ∈ moves

namespace Move

/-- The worker behind the link has answered. -/
def answers (k : Nat) : Move → Bool
  | .visit _ e => e.answers k
  | _ => false

/-- The call over the link was in vain. -/
def loses (k : Nat) : Move → Bool
  | .visit _ e => e.loses k
  | _ => false

end Move

/-- What a step makes of the links. -/
structure Worked (m : Move) (ls ls' : List WorkerLink) : Prop where
  old : ∀ (k : Nat) (l : WorkerLink), ls[k]? = some l →
    ∃ l', ls'[k]? = some l' ∧ l.Aged l' (m.answers k) (m.loses k)
  new : (ls'.length = ls.length ∧ ∀ i s k fp, m ≠ .visit i (.launched s k fp)) ∨
    ∃ i s fp l, m = .visit i (.launched s ls.length fp) ∧ ls' = ls ++ [l] ∧
      l.fingerprint = fp ∧ l.served = 0
  called : ∀ k, m.answers k = true ∨ m.loses k = true → k < ls.length

/-- The links are those that were launched, with their answers. -/
structure Ledger (moves : List Move) (ls : List WorkerLink) : Prop where
  fresh : ∀ s k fp, Launched moves s k fp → k < ls.length
  once : ∀ s s' k fp fp', Launched moves s k fp → Launched moves s' k fp' → s = s'
  fingerprint : ∀ (s k : Nat) (fp : Text) (l : WorkerLink), Launched moves s k fp →
    ls[k]? = some l → l.fingerprint = fp
  called : ∀ k, ∀ m ∈ moves, m.answers k = true ∨ m.loses k = true → k < ls.length
  served : ∀ (k : Nat) (l : WorkerLink), ls[k]? = some l →
    l.served = moves.countP (Move.answers k)
  lost : ∀ (k : Nat) (l : WorkerLink), ls[k]? = some l →
    (∃ m ∈ moves, m.loses k = true) → l.broken = true

theorem launched_concat {s k : Nat} {fp : Text} : Launched (moves ++ [m]) s k fp ↔
    Launched moves s k fp ∨ ∃ i, m = .visit i (.launched s k fp) := by
  simp only [Launched, List.mem_append, List.mem_singleton, exists_or, eq_comm]

theorem Worked.length_le {ls ls' : List WorkerLink} (h : Worked m ls ls') :
    ls.length ≤ ls'.length := by
  rcases h.new with ⟨hlen, -⟩ | ⟨i, s, fp, l, -, rfl, -⟩
  · exact Nat.le_of_eq hlen.symm
  · simp

/-- A link was there, or is the one that was launched. -/
theorem Worked.of_new {ls ls' : List WorkerLink} (h : Worked m ls ls') {k : Nat}
    {l' : WorkerLink} (hl : ls'[k]? = some l') :
    (∃ l, ls[k]? = some l ∧ l.Aged l' (m.answers k) (m.loses k)) ∨
      k = ls.length ∧ l'.served = 0 ∧ ∃ i s, m = .visit i (.launched s k l'.fingerprint) := by
  by_cases hk : k < ls.length
  · obtain ⟨l'', hl'', haged⟩ := h.old k _ (List.getElem?_eq_getElem hk)
    obtain rfl := Option.some.inj (hl.symm.trans hl'')
    exact Or.inl ⟨_, List.getElem?_eq_getElem hk, haged⟩
  · have hlt := (List.getElem?_eq_some_iff.1 hl).1
    rcases h.new with ⟨hlen, -⟩ | ⟨i, s, fp, l, hm, rfl, hfp, hserved⟩
    · omega
    · obtain rfl : k = ls.length := by
        simp only [List.length_append, List.length_singleton] at hlt
        omega
      obtain rfl : l = l' := by simpa using hl
      exact Or.inr ⟨rfl, hserved, i, s, hfp ▸ hm⟩

theorem Ledger.step {ls ls' : List WorkerLink} (h : Ledger moves ls) (hw : Worked m ls ls') :
    Ledger (moves ++ [m]) ls' := by
  have hnew {i s k : Nat} {fp : Text} (hm : m = .visit i (.launched s k fp)) :
      k = ls.length ∧ ls'.length = ls.length + 1 := by
    rcases hw.new with ⟨-, hnone⟩ | ⟨i', s', fp', l, hm', rfl, -⟩
    · exact absurd hm (hnone i s k fp)
    · cases hm.symm.trans hm'
      exact ⟨rfl, by simp⟩
  -- calls over a link that is not there yet
  have hnone {k : Nat} (hk : k = ls.length) {m' : Move} (hm' : m' ∈ moves ++ [m])
      (hc : m'.answers k = true ∨ m'.loses k = true) : False := by
    rcases List.mem_append.1 hm' with hm' | hm'
    · exact Nat.ne_of_lt (h.called k m' hm' hc) hk
    · rw [List.mem_singleton.1 hm'] at hc
      exact Nat.ne_of_lt (hw.called k hc) hk
  constructor
  case fresh =>
    intro s k fp hl
    rcases launched_concat.1 hl with hl | ⟨i, hm⟩
    · exact Nat.lt_of_lt_of_le (h.fresh s k fp hl) hw.length_le
    · have := hnew hm
      omega
  case once =>
    intro s s' k fp fp' hl hl'
    rcases launched_concat.1 hl with hl | ⟨i, hm⟩ <;>
      rcases launched_concat.1 hl' with hl' | ⟨i', hm'⟩
    · exact h.once s s' k fp fp' hl hl'
    · exact absurd (hnew hm').1 (Nat.ne_of_lt (h.fresh s k fp hl))
    · exact absurd (hnew hm).1 (Nat.ne_of_lt (h.fresh s' k fp' hl'))
    · cases hm.symm.trans hm'
      rfl
  case fingerprint =>
    intro s k fp l' hl hl'
    rcases hw.of_new hl' with ⟨l, hk, haged⟩ | ⟨hk, -, i, s', hm⟩ <;>
      rcases launched_concat.1 hl with hl | ⟨i', hm'⟩
    · exact haged.fingerprint.trans (h.fingerprint s k fp l hl hk)
    · exact absurd (hnew hm').1 (Nat.ne_of_lt (List.getElem?_eq_some_iff.1 hk).1)
    · exact absurd hk (Nat.ne_of_lt (h.fresh s k fp hl))
    · cases hm.symm.trans hm'
      rfl
  case called =>
    intro k m' hm' hc
    refine Nat.lt_of_lt_of_le ?_ hw.length_le
    rcases List.mem_append.1 hm' with hm' | hm'
    · exact h.called k m' hm' hc
    · rw [List.mem_singleton.1 hm'] at hc
      exact hw.called k hc
  case served =>
    intro k l' hl'
    rcases hw.of_new hl' with ⟨l, hk, haged⟩ | ⟨hk, hserved, -⟩
    · rw [haged.served, h.served k l hk, List.countP_append, List.countP_singleton]
    · rw [hserved, eq_comm, List.countP_eq_zero]
      exact fun m' hm' ha => hnone hk hm' (Or.inl ha)
  case lost =>
    rintro k l' hl' ⟨m', hm', hloses⟩
    rcases hw.of_new hl' with ⟨l, hk, haged⟩ | ⟨hk, -⟩
    · refine haged.broken ?_
      rcases List.mem_append.1 hm' with hm' | hm'
      · exact Or.inl (h.lost k l hk ⟨m', hm', hloses⟩)
      · exact Or.inr (List.mem_singleton.1 hm' ▸ hloses)
    · exact (hnone hk hm' (Or.inr hloses)).elim

theorem Step.worked (h : Step c m c') (hr : ∀ v ∈ c.visits, c.pool.Relies v) :
    Worked m c.pool.links c'.pool.links := by
  -- steps other than those of visits
  have hquiet {ls : List WorkerLink} (hm : ∀ i e, m ≠ .visit i e)
      (hold : ∀ (k : Nat) (l : WorkerLink), c.pool.links[k]? = some l →
        ∃ l', ls[k]? = some l' ∧ l.Aged l' false false)
      (hlen : ls.length = c.pool.links.length) : Worked m c.pool.links ls := by
    cases m with
    | visit i e => exact absurd rfl (hm i e)
    | _ => exact ⟨hold, Or.inl ⟨hlen, nofun⟩, by simp [Move.answers, Move.loses]⟩
  have hsame (k : Nat) (l : WorkerLink) (hl : c.pool.links[k]? = some l) :
      ∃ l', c.pool.links[k]? = some l' ∧ l.Aged l' false false := ⟨l, hl, .refl l⟩
  cases h with
  | @visit i e v v' p hi hv =>
    have hch := hv.change
    have hrel := hr v (List.mem_of_getElem? hi)
    rw [pass_pool]
    refine ⟨fun k l hl => hch.links hrel hl, ?_, fun k hk => ?_⟩
    · rcases hch.new_link with ⟨hlen, he⟩ | ⟨s, fp, l, -, rfl, hl, hfp, hserved, -⟩
      · exact Or.inl ⟨hlen, fun i s k fp hm => he s k fp (Move.visit.inj hm).2⟩
      · exact Or.inr ⟨i, s, fp, l, rfl, hl, hfp, hserved⟩
    · obtain ⟨l, hl, -⟩ := hch.not_wornOut hrel hk
      exact (List.getElem?_eq_some_iff.1 hl).1
  | cancel hcan =>
    rw [Pool.cancel_eq hcan]
    exact hquiet nofun (fun k l hl => WorkerLink.aged_foldl_modify WorkerLink.aged_kill _ hl)
      (WorkerLink.length_foldl_modify _ _ _)
  | drain _ hd =>
    obtain ⟨-, rfl, -⟩ := Pool.drain?_eq_some_iff.1 hd
    exact hquiet nofun hsame rfl
  | stop =>
    refine hquiet nofun (fun k l hl => WorkerLink.aged_modify WorkerLink.aged_reap hl _) ?_
    exact List.length_modify _ _ _
  | _ => exact hquiet nofun hsame rfl

/-! ## Where links are -/

/-- Each link is somewhere, and those who have one can rely on it. -/
structure Staff (moves : List Move) (c : Traffic) : Prop where
  ledger : Ledger moves c.pool.links
  inSlot : ∀ s k, c.pool.linkOf s = some k → ∃ fp, Launched moves s k fp
  held : ∀ v ∈ c.visits, ∀ s k, v.phase.link? = some (s, k) → ∃ fp, Launched moves s k fp
  relies : ∀ v ∈ c.visits, c.pool.Relies v
  limit : c.pool.settings.maxItems ≠ 0 →
    ∀ l ∈ c.pool.links, l.served ≤ c.pool.settings.maxItems.toNat
  closing : c.closings ≠ [] → c.pool.closing = true
  drained : ∀ d ∈ c.closings, (∀ asleep, d ≠ .waiting asleep) → c.pool.admitted = 0
  /-- It has ended, is in its slot, or with someone who ends it. -/
  whereabouts : ∀ (s k : Nat) (fp : Text) (l : WorkerLink), Launched moves s k fp →
    c.pool.links[k]? = some l → l.reaped = true ∨ c.pool.linkOf s = some k ∨
      (∃ v ∈ c.visits, v.phase.link? = some (s, k)) ∨
      ∃ ks, Closing.stopping ks ∈ c.closings ∧ k ∈ ks

theorem Staff.lt_length (h : Staff moves c) {s k : Nat} (hs : c.pool.linkOf s = some k) :
    k < c.pool.links.length := by
  obtain ⟨fp, hl⟩ := h.inSlot s k hs
  exact h.ledger.fresh s k fp hl

/-- The slot of a visit is left to it, but for `cancel`. -/
theorem Step.slot_kept (h : Step c m c') (hs : c.pool.Sound c.visits) (hc : Staff moves c)
    {j : Nat} {v : Visit} {s : Nat} (hj : c.visits[j]? = some v) (hslot : v.phase.slot? = some s)
    (hm : ∀ e, m ≠ .visit j e) : c'.pool.linkOf s = c.pool.linkOf s ∧
      ∀ k, c.pool.linkOf s = some k → ∃ l b, c.pool.links[k]? = some l ∧
        c'.pool.links[k]? = some { l with broken := b } ∧
        (b = true → l.broken = true ∨ c'.pool.cancelled = true) := by
  have hthere {k : Nat} (hk : c.pool.linkOf s = some k) : ∃ l, c.pool.links[k]? = some l :=
    ⟨_, List.getElem?_eq_getElem (hc.lt_length hk)⟩
  have hsame {ls : List WorkerLink} {q : Prop} (hls : ∀ k, c.pool.linkOf s = some k →
      ls[k]? = c.pool.links[k]?) {k : Nat} (hk : c.pool.linkOf s = some k) :
      ∃ l b, c.pool.links[k]? = some l ∧ ls[k]? = some { l with broken := b } ∧
        (b = true → l.broken = true ∨ q) := by
    obtain ⟨l, hl⟩ := hthere hk
    exact ⟨l, l.broken, hl, (hls k hk).trans hl, Or.inl⟩
  have hnone := hs.admitted_ne_zero (List.mem_of_getElem? hj) hslot
  cases h with
  | @visit i e u u' p hi hu =>
    have hch := hu.change
    have hij : i ≠ j := fun hij => hm e (by rw [hij])
    have huslot : u.phase.slot? ≠ some s := fun hus =>
      hij (hs.slots.unique i j u v s hi hj hus hslot)
    rw [pass_pool]
    refine ⟨hch.linkOf_other huslot, fun k => hsame fun k hk => ?_⟩
    refine hch.links_other (hc.lt_length hk) fun s' hlink => huslot ?_
    obtain ⟨fp, hl⟩ := hc.held u (List.mem_of_getElem? hi) s' k hlink
    obtain ⟨fp', hl'⟩ := hc.inSlot s k hk
    exact hc.ledger.once s' s k fp fp' hl hl' ▸ Phase.slot?_of_link? hlink
  | cancel hcan =>
    rw [Pool.cancel_eq hcan]
    refine ⟨rfl, fun k hk => ?_⟩
    obtain ⟨l, hl⟩ := hthere hk
    refine ⟨l, if k ∈ c.pool.busyLinks then true else l.broken, hl, ?_, fun _ => Or.inr rfl⟩
    rw [WorkerLink.getElem?_foldl_kill, hl]
    split_ifs <;> rfl
  | drain _ hd => exact absurd (Pool.drain?_eq_some_iff.1 hd).1 hnone
  | stop hi => exact absurd (hc.drained _ (List.mem_of_getElem? hi) nofun) hnone
  | _ => exact ⟨rfl, fun k => hsame fun _ _ => rfl⟩

theorem Step.relies (h : Step c m c') (hs : c.pool.Sound c.visits) (hc : Staff moves c) :
    ∀ w ∈ c'.visits, c'.pool.Relies w := by
  intro w hw
  obtain ⟨j, hj⟩ := List.mem_iff_getElem?.1 hw
  rcases h.visit_cases hj with ⟨-, item, d, -, -, ⟨-, rfl⟩ | ⟨-, rfl⟩⟩ |
    ⟨v, hv, ⟨hm, hwv⟩ | ⟨e, v', -, hch, hwv⟩⟩
  · trivial
  · trivial
  · have hmem := List.mem_of_getElem? hv
    refine ((hc.relies v hmem).congr h.keeps.settings h.keeps.cancelled (fun s hslot => ?_)
      fun s k hslot => ?_).told hwv
    · exact (h.slot_kept hs hc hv hslot hm).1
    · exact (h.slot_kept hs hc hv hslot hm).2 k
  · have hrel := hch.relies (hc.relies v (List.mem_of_getElem? hv)) (fun s => hs.slot_lt hv)
      fun s k => hc.lt_length
    exact hrel.told hwv

/-- What is in a slot was there, or was launched for it. -/
theorem Step.of_linkOf (h : Step c m c') {s k : Nat} (hs : c'.pool.linkOf s = some k) :
    c.pool.linkOf s = some k ∨ ∃ i fp, m = .visit i (.launched s k fp) := by
  cases h with
  | @visit i e v v' p hi hv =>
    rw [pass_pool] at hs
    refine (hv.change.of_linkOf hs).imp_right ?_
    rintro ⟨fp, rfl⟩
    exact ⟨i, fp, rfl⟩
  | cancel hcan =>
    rw [Pool.cancel_eq hcan] at hs
    exact Or.inl hs
  | drain _ hd =>
    obtain ⟨-, rfl, -⟩ := Pool.drain?_eq_some_iff.1 hd
    simp [Pool.linkOf, Option.bind_eq_some_iff] at hs
  | _ => exact Or.inl hs

theorem Step.inSlot (h : Step c m c') (hc : Staff moves c) (s k : Nat)
    (hs : c'.pool.linkOf s = some k) : ∃ fp, Launched (moves ++ [m]) s k fp := by
  rcases h.of_linkOf hs with hs | ⟨i, fp, hm⟩
  · obtain ⟨fp, hl⟩ := hc.inSlot s k hs
    exact ⟨fp, launched_concat.2 (Or.inl hl)⟩
  · exact ⟨fp, launched_concat.2 (Or.inr ⟨i, hm⟩)⟩

theorem Step.held (h : Step c m c') (hc : Staff moves c) (w : Visit) (hw : w ∈ c'.visits)
    (s k : Nat) (hlink : w.phase.link? = some (s, k)) :
    ∃ fp, Launched (moves ++ [m]) s k fp := by
  suffices hold : ∃ fp, Launched moves s k fp by
    obtain ⟨fp, hl⟩ := hold
    exact ⟨fp, launched_concat.2 (Or.inl hl)⟩
  obtain ⟨j, hj⟩ := List.mem_iff_getElem?.1 hw
  rcases h.visit_cases hj with ⟨-, item, d, -, -, ⟨-, rfl⟩ | ⟨-, rfl⟩⟩ |
    ⟨v, hv, ⟨-, hwv⟩ | ⟨e, v', -, hch, hwv⟩⟩
  · cases hlink
  · cases hlink
  · exact hc.held v (List.mem_of_getElem? hv) s k (hwv.phase ▸ hlink)
  · rcases hch.of_link? (hwv.phase ▸ hlink) with hlink | hslot
    · exact hc.held v (List.mem_of_getElem? hv) s k hlink
    · exact hc.inSlot s k hslot

theorem lt_of_not_wornOut {p : Pool} {l : WorkerLink} (h : p.wornOut l = false)
    (hmax : p.settings.maxItems ≠ 0) (hle : l.served ≤ p.settings.maxItems.toNat) :
    l.served < p.settings.maxItems.toNat := by
  have hword : l.served < 2 ^ 64 := Nat.lt_of_le_of_lt hle p.settings.maxItems.toNat_lt
  have hlt : ¬ p.settings.maxItems ≤ UInt64.ofNat l.served := by
    simpa [Pool.wornOut, hmax] using h
  rwa [UInt64.le_iff_toNat_le, UInt64.toNat_ofNat_of_lt' hword, Nat.not_le] at hlt

theorem Step.limit (h : Step c m c') (hc : Staff moves c)
    (hmax : c'.pool.settings.maxItems ≠ 0) (l' : WorkerLink) (hl' : l' ∈ c'.pool.links) :
    l'.served ≤ c'.pool.settings.maxItems.toNat := by
  rw [h.keeps.settings] at hmax ⊢
  obtain ⟨k, hk⟩ := List.mem_iff_getElem?.1 hl'
  rcases (h.worked hc.relies).of_new hk with ⟨l, hl, haged⟩ | ⟨-, hserved, -⟩
  · have hle := hc.limit hmax l (List.mem_of_getElem? hl)
    rw [haged.served]
    split_ifs with ha
    · cases h with
      | @visit i e v v' p hi hv =>
        obtain ⟨l₁, hl₁, hworn⟩ := hv.change.not_wornOut
          (hc.relies v (List.mem_of_getElem? hi)) (Or.inl ha)
        obtain rfl := Option.some.inj (hl.symm.trans hl₁)
        exact lt_of_not_wornOut hworn hmax hle
      | _ => cases ha
    · exact hle
  · exact hserved ▸ Nat.zero_le _

/-! ## Who closes the pool -/

theorem mem_wake {d : Closing} {ds : List Closing} (hd : ∀ asleep, d ≠ .waiting asleep) :
    d ∈ ds.map Closing.wake ↔ d ∈ ds := by
  constructor
  · intro h
    obtain ⟨d', hd', rfl⟩ := List.mem_map.1 h
    cases d' with
    | waiting => exact absurd rfl (hd false)
    | _ => exact hd'
  · intro h
    refine List.mem_map.2 ⟨d, h, ?_⟩
    cases d with
    | waiting asleep => exact absurd rfl (hd asleep)
    | _ => rfl

/-- Who is done with waiting has drained the pool. -/
theorem Step.of_closing (h : Step c m c') {d : Closing} (hd : d ∈ c'.closings)
    (hwait : ∀ asleep, d ≠ .waiting asleep) : d ∈ c.closings ∨ ∃ i, m = .closing i ∧
      (c.pool.admitted = 0 ∨ ∃ ks, Closing.stopping ks ∈ c.closings) := by
  have hset {i : Nat} {d' : Closing} (hd : d ∈ c.closings.set i d') (hne : d ≠ d') :
      d ∈ c.closings := (List.mem_or_eq_of_mem_set hd).resolve_right hne
  cases h with
  | visit =>
    rcases pass_closings c _ _ _ _ with hcl | hcl <;> rw [hcl] at hd
    · exact Or.inl hd
    · exact Or.inl ((mem_wake hwait).1 hd)
  | tell | cancel => exact Or.inl ((mem_wake hwait).1 hd)
  | close =>
    rcases List.mem_append.1 hd with hd | hd
    · exact Or.inl ((mem_wake hwait).1 hd)
    · exact absurd (List.mem_singleton.1 hd) (hwait false)
  | rest | stirClosing => exact Or.inl (hset hd (hwait _))
  | drain hi hp => exact Or.inr ⟨_, rfl, Or.inl (Pool.drain?_eq_some_iff.1 hp).1⟩
  | stop hi | stopped hi => exact Or.inr ⟨_, rfl, Or.inr ⟨_, List.mem_of_getElem? hi⟩⟩
  | come | skip | stir => exact Or.inl hd

theorem Step.closing (h : Step c m c') (hc : Staff moves c) (hne : c'.closings ≠ []) :
    c'.pool.closing = true := by
  have hclosing : c.closings ≠ [] → c'.pool.closing = true := h.keeps.closing ∘ hc.closing
  cases h with
  | close => rfl
  | @visit i e v v' p =>
    refine hclosing fun hnil => hne ?_
    rcases pass_closings c i e p v' with hcl | hcl <;> rw [hcl, hnil]
    rfl
  | come | skip | stir => exact hclosing hne
  | tell | cancel => exact hclosing fun hnil => hne (by simp [wake, hnil])
  | rest hi | stirClosing hi | drain hi | stop hi | stopped hi =>
    exact hclosing (List.ne_nil_of_mem (List.mem_of_getElem? hi))

/-- Nobody is admitted to a closed pool. -/
theorem Step.admitted_zero (h : Step c m c') (hclosing : c.pool.closing = true)
    (hzero : c.pool.admitted = 0) : c'.pool.admitted = 0 := by
  cases h with
  | @visit i e v v' p hi hv =>
    rw [pass_pool]
    cases hv.change with
    | accept _ hcl => simp [hclosing] at hcl
    | withdraw | free => exact Nat.sub_eq_zero_of_le (by simp [hzero])
    | _ => exact hzero
  | cancel hcan =>
    rw [Pool.cancel_eq hcan]
    exact hzero
  | drain _ hd =>
    obtain ⟨-, rfl, -⟩ := Pool.drain?_eq_some_iff.1 hd
    exact hzero
  | _ => exact hzero

theorem Step.drained (h : Step c m c') (hc : Staff moves c) (d : Closing)
    (hd : d ∈ c'.closings) (hwait : ∀ asleep, d ≠ .waiting asleep) : c'.pool.admitted = 0 := by
  have hzero : c.closings ≠ [] → c.pool.admitted = 0 → c'.pool.admitted = 0 :=
    fun hne => h.admitted_zero (hc.closing hne)
  rcases h.of_closing hd hwait with hd | ⟨i, rfl, hz | ⟨ks, hks⟩⟩
  · exact hzero (List.ne_nil_of_mem hd) (hc.drained d hd hwait)
  · cases h with
    | drain hi | rest hi | stirClosing hi | stop hi | stopped hi =>
      exact hzero (List.ne_nil_of_mem (List.mem_of_getElem? hi)) hz
  · exact hzero (List.ne_nil_of_mem hks) (hc.drained _ hks nofun)

/-- A link that is to be ended stays so, or its worker ends. -/
theorem Step.stopping (h : Step c m c') {k : Nat} {l : WorkerLink} {ks : List Nat}
    (hl : c.pool.links[k]? = some l) (hks : Closing.stopping ks ∈ c.closings) (hk : k ∈ ks) :
    (∃ l', c'.pool.links[k]? = some l' ∧ l'.reaped = true) ∨
      ∃ ks', Closing.stopping ks' ∈ c'.closings ∧ k ∈ ks' := by
  have hset {i : Nat} {d d' : Closing} (hi : c.closings[i]? = some d) (hne : d ≠ .stopping ks) :
      Closing.stopping ks ∈ c.closings.set i d' := by
    obtain ⟨j, hj⟩ := List.mem_iff_getElem?.1 hks
    have hij : j ≠ i := by
      rintro rfl
      exact hne (Option.some.inj (hi.symm.trans hj))
    exact List.mem_of_getElem? (by rwa [getElem?_set_of_some hi, if_neg hij])
  have hwake : Closing.stopping ks ∈ c.closings.map Closing.wake := (mem_wake (by simp)).2 hks
  cases h with
  | come | skip | stir => exact Or.inr ⟨ks, hks, hk⟩
  | visit =>
    refine Or.inr ⟨ks, ?_, hk⟩
    rcases pass_closings c _ _ _ _ with hcl | hcl <;> rw [hcl]
    · exact hks
    · exact hwake
  | tell | cancel => exact Or.inr ⟨ks, hwake, hk⟩
  | close => exact Or.inr ⟨ks, List.mem_append_left _ hwake, hk⟩
  | rest hi | stirClosing hi | drain hi => exact Or.inr ⟨ks, hset hi nofun, hk⟩
  | @stop i link links hi =>
    by_cases hsame : Closing.stopping (link :: links) = .stopping ks
    · cases hsame
      rcases List.mem_cons.1 hk with rfl | hk
      · exact Or.inl ⟨l.reap, by simp [Pool.updateLink, hl], rfl⟩
      · exact Or.inr ⟨links, mem_set_same hi _, hk⟩
    · exact Or.inr ⟨ks, hset hi hsame, hk⟩
  | stopped hi =>
    refine Or.inr ⟨ks, hset hi ?_, hk⟩
    rintro ⟨⟩
    cases hk

/-! ## Runs -/

/-- A link in a slot stays there, or is with someone who ends it. -/
theorem Step.linkOf_kept (h : Step c m c') (hc : Staff moves c) {s k : Nat}
    (hk : c.pool.linkOf s = some k) : c'.pool.linkOf s = some k ∨
      (∃ w ∈ c'.visits, w.phase.link? = some (s, k)) ∨
      ∃ ks, Closing.stopping ks ∈ c'.closings ∧ k ∈ ks := by
  cases h with
  | @visit i e v v' p hi hv =>
    rw [pass_pool]
    refine (hv.change.linkOf_kept (hc.relies v (List.mem_of_getElem? hi)) hk).imp_right
      fun hlink => Or.inl ?_
    have hset : v' ∈ c.visits.set i v' := mem_set_same hi v'
    rcases pass_visits c i e p v' with hvs | hvs <;> rw [hvs]
    · exact ⟨v', hset, hlink⟩
    · exact ⟨v'.wake, List.mem_map_of_mem hset, hlink⟩
  | cancel hcan =>
    rw [Pool.cancel_eq hcan]
    exact Or.inl hk
  | @drain i p links hi hd =>
    obtain ⟨-, rfl, rfl⟩ := Pool.drain?_eq_some_iff.1 hd
    refine Or.inr (Or.inr ⟨_, mem_set_same hi _, ?_⟩)
    obtain ⟨x, hx, hlink⟩ := Option.bind_eq_some_iff.1 hk
    exact List.mem_filterMap.2 ⟨x, List.mem_of_getElem? hx, hlink⟩
  | _ => exact Or.inl hk

theorem Step.linkOf_launched {i s k : Nat} {fp : Text}
    (h : Step c (.visit i (.launched s k fp)) c') (hs : c.pool.Sound c.visits) :
    c'.pool.linkOf s = some k := by
  cases h with
  | visit hi hv =>
    have hch := hv.change
    exact hch.linkOf_launched (hs.slot_lt hi hch.slot?_of_launched)

theorem Step.whereabouts (h : Step c m c') (hs : c.pool.Sound c.visits) (hc : Staff moves c)
    (s k : Nat) (fp : Text) (l' : WorkerLink) (hl : Launched (moves ++ [m]) s k fp)
    (hl' : c'.pool.links[k]? = some l') : l'.reaped = true ∨ c'.pool.linkOf s = some k ∨
      (∃ v ∈ c'.visits, v.phase.link? = some (s, k)) ∨
      ∃ ks, Closing.stopping ks ∈ c'.closings ∧ k ∈ ks := by
  have hreaped : (∃ l'', c'.pool.links[k]? = some l'' ∧ l''.reaped = true) → l'.reaped = true := by
    rintro ⟨l'', hl'', hr⟩
    obtain rfl := Option.some.inj (hl'.symm.trans hl'')
    exact hr
  rcases launched_concat.1 hl with hl | ⟨i, rfl⟩
  · have hlt := hc.ledger.fresh s k fp hl
    obtain ⟨l'', hl'', haged⟩ := (h.worked hc.relies).old k _ (List.getElem?_eq_getElem hlt)
    rcases hc.whereabouts s k fp _ hl (List.getElem?_eq_getElem hlt) with
      hr | hk | ⟨v, hv, hlink⟩ | ⟨ks, hks, hk⟩
    · exact Or.inl (hreaped ⟨l'', hl'', haged.reaped hr⟩)
    · exact Or.inr (h.linkOf_kept hc hk)
    · obtain ⟨j, hj⟩ := List.mem_iff_getElem?.1 hv
      obtain ⟨w, hw, ⟨-, hwv⟩ | ⟨e, v', -, hch, hwv⟩⟩ := h.of_visit hj
      · exact Or.inr (Or.inr (Or.inl ⟨w, List.mem_of_getElem? hw, hwv.phase ▸ hlink⟩))
      · rcases hch.link?_kept (hc.relies v hv) (List.getElem?_eq_getElem hlt) hlink with
          hlink | hk | hr
        · exact Or.inr (Or.inr (Or.inl ⟨w, List.mem_of_getElem? hw, hwv.phase ▸ hlink⟩))
        · exact Or.inr (Or.inl hk)
        · exact Or.inl (hreaped hr)
    · rcases h.stopping (List.getElem?_eq_getElem hlt) hks hk with hr | hks
      · exact Or.inl (hreaped hr)
      · exact Or.inr (Or.inr (Or.inr hks))
  · exact Or.inr (Or.inl (h.linkOf_launched hs))

theorem staff_start (settings : PoolSettings) (processors : Nat) :
    Staff [] (start settings processors) := by
  have hnone {s k : Nat} {fp : Text} : ¬ Launched [] s k fp := by
    rintro ⟨i, hm⟩
    cases hm
  refine ⟨⟨fun s k fp hl => absurd hl hnone, fun s s' k fp fp' hl => absurd hl hnone,
    fun s k fp l hl => absurd hl hnone, by simp, by simp [start, Pool.make],
    by simp [start, Pool.make]⟩, ?_, by simp [start], by simp [start], by simp [start, Pool.make],
    by simp [start], by simp [start], fun s k fp l hl => absurd hl hnone⟩
  intro s k hs
  simp [start, Pool.make, Pool.linkOf, Option.bind_eq_some_iff, List.getElem?_replicate] at hs

theorem Step.staff (h : Step c m c') (hs : c.pool.Sound c.visits) (hc : Staff moves c) :
    Staff (moves ++ [m]) c' where
  ledger := hc.ledger.step (h.worked hc.relies)
  inSlot := h.inSlot hc
  held := h.held hc
  relies := h.relies hs hc
  limit := h.limit hc
  closing := h.closing hc
  drained := h.drained hc
  whereabouts := h.whereabouts hs hc

theorem Run.staff (h : Run (start settings processors) moves c) : Staff moves c := by
  induction h with
  | nil => exact staff_start settings processors
  | snoc hr hs ih => exact hs.staff hr.sound ih

/-! ## What workers get -/

/-- A worker is launched for the slot, or about to be. -/
def Launching (c : Traffic) (s : Nat) : Prop :=
  ∃ v ∈ c.visits, (∃ item, v.phase = .launching item s) ∨ ∃ fp r, v.phase = .replacing s fp r

/-- Which workers items may be sent to, and when workers may be launched. -/
structure Reuse (settings : PoolSettings) (moves : List Move) (c : Traffic) : Prop where
  /-- The worker was launched for the fingerprint of the item, and for no other. -/
  fingerprint : ∀ i item k c', Step c (.visit i (.sent item k)) c' →
    (∃ s, Launched moves s k item.fingerprint) ∧
      ∀ s fp, Launched moves s k fp → fp = item.fingerprint
  /-- It has answered fewer items than it may. -/
  unworn : ∀ i item k c', Step c (.visit i (.sent item k)) c' → settings.maxItems ≠ 0 →
    moves.countP (Move.answers k) < settings.maxItems.toNat
  /-- It has answered whatever it was called for: it did not crash, was in time and kept to the
      protocol. -/
  unbroken : ∀ i item k c', Step c (.visit i (.sent item k)) c' → ∀ m ∈ moves, m.loses k = false
  /-- As long as a worker is launched for a slot, all that were launched for it before have
      ended. -/
  single : ∀ s, c.Launching s → ∀ k fp, Launched moves s k fp →
    ∃ l, c.pool.links[k]? = some l ∧ l.reaped = true
  launching : ∀ i s k fp c', Step c (.visit i (.launched s k fp)) c' → c.Launching s

/-- **After any moves only fit workers get items, and no slot has two workers.** -/
theorem run_reuse (h : Run (start settings processors) moves c) : Reuse settings moves c := by
  have hs := h.sound
  have hc := h.staff
  -- what is sent goes to a fit link that is not broken
  have hsent {i : Nat} {item : Item} {k : Nat} {c' : Traffic}
      (hstep : Step c (.visit i (.sent item k)) c') :
      ∃ s l, c.pool.Fits s k l item.fingerprint ∧ l.broken = false := by
    cases hstep with
    | visit hi hv =>
      have hrel := hc.relies _ (List.mem_of_getElem? hi)
      cases hv.change with
      | send hl hb =>
        obtain ⟨l', hfits, -⟩ := hrel
        obtain rfl := Option.some.inj (hl.symm.trans hfits.link)
        exact ⟨_, _, hfits, hb⟩
  constructor
  case fingerprint =>
    intro i item k c' hstep
    obtain ⟨s, l, hfits, -⟩ := hsent hstep
    have honly (s' : Nat) (fp : Text) (hl : Launched moves s' k fp) : fp = item.fingerprint :=
      (hc.ledger.fingerprint s' k fp l hl hfits.link).symm.trans hfits.fingerprint
    obtain ⟨fp, hl⟩ := hc.inSlot s k hfits.slot
    exact ⟨⟨s, honly s fp hl ▸ hl⟩, honly⟩
  case unworn =>
    intro i item k c' hstep hmax
    obtain ⟨s, l, hfits, -⟩ := hsent hstep
    have hsettings : c.pool.settings = settings := h.keeps.settings
    have hle := hc.limit (hsettings ▸ hmax) l (List.mem_of_getElem? hfits.link)
    rw [← hc.ledger.served k l hfits.link, ← hsettings]
    exact lt_of_not_wornOut hfits.fresh (hsettings ▸ hmax) hle
  case unbroken =>
    intro i item k c' hstep m hm
    obtain ⟨s, l, hfits, hb⟩ := hsent hstep
    by_contra hloses
    have hbroken := hc.ledger.lost k l hfits.link ⟨m, hm, by simpa using hloses⟩
    simp [hb] at hbroken
  case single =>
    rintro s ⟨v, hv, hphase⟩ k fp hl
    have hslot : v.phase.slot? = some s := by
      rcases hphase with ⟨item, hphase⟩ | ⟨fp, r, hphase⟩ <;> rw [hphase] <;> rfl
    have hfree : v.phase.link? = none := by
      rcases hphase with ⟨item, hphase⟩ | ⟨fp, r, hphase⟩ <;> rw [hphase] <;> rfl
    have hempty : c.pool.linkOf s = none := by
      have hrel := hc.relies v hv
      rcases hphase with ⟨item, hphase⟩ | ⟨fp, r, hphase⟩
      · simpa only [Pool.Relies, hphase] using hrel
      · simp only [Pool.Relies, hphase] at hrel
        exact hrel.1
    have hk := List.getElem?_eq_getElem (hc.ledger.fresh s k fp hl)
    refine ⟨_, hk, ?_⟩
    rcases hc.whereabouts s k fp _ hl hk with hr | hlink | ⟨w, hw, hlink⟩ | ⟨ks, hks, -⟩
    · exact hr
    · simp [hempty] at hlink
    · -- no other visit has the slot
      obtain ⟨i, hi⟩ := List.mem_iff_getElem?.1 hv
      obtain ⟨j, hj⟩ := List.mem_iff_getElem?.1 hw
      obtain rfl := hs.slots.unique i j v w s hi hj hslot (Phase.slot?_of_link? hlink)
      obtain rfl := Option.some.inj (hi.symm.trans hj)
      simp [hfree] at hlink
    · exact absurd (hc.drained _ hks nofun) (hs.admitted_ne_zero hv hslot)
  case launching =>
    intro i s k fp c' hstep
    cases hstep with
    | visit hi hv =>
      refine ⟨_, List.mem_of_getElem? hi, ?_⟩
      cases hv.change with
      | launch | launchInVain => exact Or.inl ⟨_, rfl⟩
      | replace => exact Or.inr ⟨_, _, rfl⟩

/-- An item is about to be sent to the worker that was launched for it. -/
theorem run_reuse_first : ∃ moves c c', Run (start { size := 1, maxItems := 1 } 4) moves c ∧
    Reuse { size := 1, maxItems := 1 } moves c ∧
    Step c (.visit 0 (.sent ⟨7, [], []⟩ 0)) c' := by
  have come (c : Traffic) : Step c (.come ⟨7, [], []⟩ ⟨⟨7, [], []⟩, false⟩) _ := .come rfl rfl
  have h₁ := (Run.nil (c := start { size := 1, maxItems := 1 } 4)).snoc (come _)
  have h₂ := h₁.snoc (.visit (i := 0) rfl (.register rfl))
  have h₃ := h₂.snoc (.visit (i := 0) rfl (.accept rfl))
  have h₄ := h₃.snoc (.visit (i := 0) rfl (.dispatch rfl))
  have h₅ := h₄.snoc (.visit (i := 0) rfl (.prepare rfl))
  have h₆ := h₅.snoc (.visit (i := 0) rfl (.launch 100 rfl))
  have h₇ := h₆.snoc (.visit (i := 0) rfl (.fetch rfl))
  exact ⟨_, _, _, h₇, run_reuse h₇, .visit (i := 0) rfl (.send rfl rfl)⟩

end Traffic

end Rebuild
