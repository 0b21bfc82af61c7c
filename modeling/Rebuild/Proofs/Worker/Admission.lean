/-
  How many items a pool lets in.

  The number is counted in a word, and a valid pool may have so many places in its queue that
  it does not fit.

  * `Config.applyEnvironment_capacity`: the environment can ask for a queue of any size;
  * `Traffic.idle_admits_iff`: a pool without any item lets everyone in, but for one size of
    the queue, for which it never lets anyone in.
-/
import Rebuild.Proofs.Numeral
import Rebuild.Proofs.Worker.Queue

namespace Rebuild

/-! ## Settings -/

namespace PoolSettings

variable {settings : PoolSettings} {processors : Nat}

theorem workers_le (h : settings.validate processors = .ok ()) :
    settings.workers processors ≤ maxPoolSize := by
  unfold validate at h
  split_ifs at h with hsize
  · exact Nat.not_lt.1 hsize

end PoolSettings

theorem Override.unsigned?_ofNat (n : UInt64) : unsigned? (Text.ofNat n.toNat) = some n := by
  obtain ⟨b, hhead, hb⟩ := Numeral.head?_ofNat n.toNat
  rw [unsigned?, Numeral.read?_ofNat, hhead]
  simp [hb, Numeral.unsigned?, UInt64.toNat_lt_size]

/-- An environment that has nothing to say but how many items may wait. -/
def Override.capacityOnly (n : UInt64) (name : Text) : Text :=
  if name = "KILN_QUEUE_CAPACITY" then Text.ofNat n.toNat else []

/-- The environment can ask for any capacity. -/
theorem Config.applyEnvironment_capacity (c : Config) (n : UInt64) :
    (c.applyEnvironment (Override.capacityOnly n)).config =
        { c with pool.queueCapacity := n } ∧
      (c.applyEnvironment (Override.capacityOnly n)).error = none := by
  obtain ⟨b, hhead, -⟩ := Numeral.head?_ofNat n.toNat
  have hset : Text.ofNat n.toNat ≠ [] := fun hnil => by simp [hnil] at hhead
  have hcapacity : Override.capacityOnly n "KILN_QUEUE_CAPACITY" = Text.ofNat n.toNat := if_pos rfl
  have hother {name : Text} (h : name ≠ "KILN_QUEUE_CAPACITY") : Override.capacityOnly n name = [] :=
    if_neg h
  have hskip {o : Override} (h : o.name ≠ "KILN_QUEUE_CAPACITY") (os : List Override) (c : Config) :
      Override.apply (Override.capacityOnly n) (o :: os) c =
        Override.apply (Override.capacityOnly n) os c := by
    rw [Override.apply, if_pos (hother h)]
  rw [applyEnvironment, Override.all, hskip (by decide), hskip (by decide), hskip (by decide),
    Override.apply, if_neg (hcapacity ▸ hset)]
  simp only [Override.unsigned, hcapacity, Override.unsigned?_ofNat]
  rw [hskip (by decide)]
  exact ⟨rfl, rfl⟩

/-! ## Admission -/

namespace Traffic

variable {c c' : Traffic} {m : Move} {moves : List Move} {settings : PoolSettings}
  {processors : Nat}

/-- Without a place nobody is admitted. -/
theorem Step.drawn?_eq_none (h : Step c m c') (hlimit : c.pool.limit = 0) : m.drawn? = none := by
  cases h with
  | visit _ hv =>
    cases hv.change with
    | accept _ _ hlt => exact absurd (hlimit ▸ hlt) UInt64.not_lt_zero
    | _ => rfl
  | _ => rfl

theorem Run.toNat_limit (h : Run (start settings processors) moves c) : c.pool.limit.toNat =
    (settings.workers processors + settings.queueCapacity.toNat) % 2 ^ 64 := by
  rw [h.limit_eq, UInt64.toNat_add, UInt64.toNat_ofNat', Nat.mod_add_mod]

/-- So it stays. -/
theorem Run.drawn?_eq_none (h : Run (start settings processors) moves c)
    (hlimit : c.pool.limit = 0) : ∀ m ∈ moves, m.drawn? = none := by
  induction h with
  | nil => nofun
  | @snoc moves c c' m h hs ih =>
    have hbefore : c.pool.limit = 0 := by rw [h.limit_eq, ← (h.snoc hs).limit_eq, hlimit]
    intro n hn
    rcases List.mem_append.1 hn with hn | hn
    · exact ih hbefore n hn
    · rw [List.mem_singleton.1 hn]
      exact hs.drawn?_eq_none hbefore

/-- An open pool without items lets one in if there is a place at all. -/
theorem admit?_idle_iff (hcan : c.pool.cancelled = false) (hclosing : c.pool.closing = false)
    (hidle : c.pool.admitted = 0) (item : Item) :
    (∃ p ticket, c.pool.admit? item = some (p, .queued item ticket)) ↔ c.pool.limit ≠ 0 := by
  have hlt : UInt64.ofNat c.pool.admitted < c.pool.limit ↔ c.pool.limit ≠ 0 := by
    rw [hidle]
    exact UInt64.pos_iff_ne_zero
  rw [← hlt, Pool.admit?]
  simp only [hcan, hclosing, Bool.false_eq_true, if_false]
  split_ifs with h
  · exact ⟨fun _ => h, fun _ => ⟨_, _, rfl⟩⟩
  · simp [h]

/-- **Who is let into a pool.**  The limit covers all workers of a valid pool unless workers and
    places are too many for a word.  Then it still lets someone in if no item is there, but for
    the one number that makes the limit zero: such a pool never admits anyone.  Every number of
    places can come from the environment. -/
theorem idle_admits_iff (hvalid : settings.validate processors = .ok ()) :
    (∀ moves c, Run (start settings processors) moves c →
      (c.pool.slots.length ≤ c.pool.limit.toNat ↔
        settings.workers processors + settings.queueCapacity.toNat < 2 ^ 64) ∧
      (c.pool.cancelled = false → c.pool.closing = false → c.pool.admitted = 0 → ∀ item,
        (∃ p ticket, c.pool.admit? item = some (p, .queued item ticket)) ↔
          settings.workers processors + settings.queueCapacity.toNat ≠ 2 ^ 64) ∧
      (settings.workers processors + settings.queueCapacity.toNat = 2 ^ 64 →
        ∀ m ∈ moves, m.drawn? = none)) ∧
    ∀ (config : Config) (n : UInt64),
      (config.applyEnvironment (Override.capacityOnly n)).config =
          { config with pool.queueCapacity := n } ∧
        (config.applyEnvironment (Override.capacityOnly n)).error = none := by
  refine ⟨fun moves c h => ?_, Config.applyEnvironment_capacity⟩
  have hsize : settings.workers processors ≤ 1024 := PoolSettings.workers_le hvalid
  have hpos := settings.workers_pos processors
  have hcapacity := settings.queueCapacity.toNat_lt
  have hlimit := h.toNat_limit
  have hslots : c.pool.slots.length = settings.workers processors := by
    rw [h.keeps.slots]
    simp [start, Pool.make]
  have hzero : c.pool.limit = 0 ↔
      settings.workers processors + settings.queueCapacity.toNat = 2 ^ 64 := by
    rw [← UInt64.toNat_inj, hlimit, UInt64.toNat_zero]
    omega
  refine ⟨?_, fun hcan hclosing hidle item => ?_, fun hfull => h.drawn?_eq_none (hzero.2 hfull)⟩
  · rw [hslots, hlimit]
    omega
  · rw [admit?_idle_iff hcan hclosing hidle item, Ne, hzero]

/-- Three workers and `2 ^ 64 - 2` places: one item is let in, and no second one with it. -/
theorem idle_admits_iff_one :
    let settings : PoolSettings := { size := 3, queueCapacity := 18446744073709551614 }
    settings.validate 4 = .ok () ∧
      ¬ (start settings 4).pool.slots.length ≤ (start settings 4).pool.limit.toNat ∧
      ∃ p ticket, (start settings 4).pool.admit? ⟨7, [], []⟩ =
        some (p, .queued ⟨7, [], []⟩ ticket) := by
  intro settings
  have hvalid : settings.validate 4 = .ok () := rfl
  obtain ⟨hcovers, hidle, -⟩ := (idle_admits_iff hvalid).1 [] _ .nil
  exact ⟨hvalid, hcovers.not.2 (by decide), (hidle rfl rfl rfl _).2 (by decide)⟩

/-- One worker and `2 ^ 64 - 1` places are valid.  Someone has come, no other item is there,
    and there is no place. -/
theorem idle_admits_none :
    let settings : PoolSettings := { size := 1, queueCapacity := 18446744073709551615 }
    settings.validate 4 = .ok () ∧ ∃ moves c, Run (start settings 4) moves c ∧
      c.visits = [⟨7, .registered ⟨7, [], []⟩, .awake⟩] ∧ c.pool.cancelled = false ∧
      c.pool.closing = false ∧ c.pool.admitted = 0 ∧ c.pool.slots.length = 1 ∧
      c.pool.limit = 0 ∧ c.pool.admit? ⟨7, [], []⟩ = none := by
  intro settings
  have come : Step (start settings 4) (.come ⟨7, [], []⟩ ⟨⟨7, [], []⟩, false⟩) _ := .come rfl rfl
  have registered := (Run.nil.snoc come).snoc (.visit (i := 0) rfl (.register rfl))
  have hzero : UInt64.ofNat (settings.workers 4) + settings.queueCapacity = 0 := by decide
  have hlimit := registered.limit_eq.trans hzero
  have hnone : Pool.admit? _ ⟨7, [], []⟩ = none :=
    Visit.admit?_eq_none_iff.2 ⟨rfl, rfl, hlimit ▸ UInt64.not_lt_zero⟩
  exact ⟨rfl, _, _, registered, rfl, rfl, rfl, rfl, rfl, hlimit, hnone⟩

end Traffic

end Rebuild
