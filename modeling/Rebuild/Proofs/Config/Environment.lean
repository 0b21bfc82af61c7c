/-
  What the environment makes of the settings that are integers.

  * `Override.Makes`: an override that is not refused, and what it makes of a configuration;
    `Override.succeeds_cons` takes a list of overrides apart into these;
  * `Override.unsigned?_eq_some_iff`: which texts are taken for a word, and for which one.  A minus
    sign is refused only where it is the first byte of all; behind blanks it is taken, and the word
    is then the complement;
  * `IntegerSetting.Accepts` and `IntegerSetting.all`: the settings, and the texts they take.

  `Config.applyEnvironment_integers` says which environments are accepted, and that a setting holds
  the integer of its text exactly if that is not negative.
-/
import Mathlib.Tactic.Common
import Rebuild.Config
import Rebuild.Proofs.Numeral

namespace Rebuild

open Numeral

/-! ## Words that are written -/

namespace Numeral

theorem toNat_complement {negative : Bool} {m : Nat} (h : m < UInt64.size) :
    ((if negative then 0 - UInt64.ofNat m else UInt64.ofNat m).toNat : Int) =
      intOf negative m % UInt64.size := by
  have hm : (UInt64.ofNat m).toNat = m := UInt64.toNat_ofNat_of_lt' h
  unfold UInt64.size at *
  cases negative with
  | false =>
    rw [if_neg Bool.false_ne_true, hm, intOf, if_neg Bool.false_ne_true]
    omega
  | true =>
    rw [if_pos rfl, UInt64.toNat_sub, hm, intOf, if_pos rfl]
    have hzero : (0 : UInt64).toNat = 0 := rfl
    omega

end Numeral

/-! ## Overrides one after the other -/

namespace Override

variable {env : Text → Text} {o : Override} {os : List Override} {c c' d : Config}

/-- What an override makes of a configuration if it is not refused. -/
def Makes (o : Override) (env : Text → Text) (c c' : Config) : Prop :=
  if env o.name = [] then c' = c else (o.read (env o.name) c).2 = .ok c'

/-- No override is refused, and this configuration comes of it. -/
def Succeeds (os : List Override) (env : Text → Text) (c d : Config) : Prop :=
  (apply env os c).error = none ∧ (apply env os c).config = d

theorem succeeds_nil : Succeeds [] env c d ↔ d = c :=
  ⟨fun h => h.2.symm, fun h => ⟨rfl, h.symm⟩⟩

theorem succeeds_cons :
    Succeeds (o :: os) env c d ↔ ∃ c', o.Makes env c c' ∧ Succeeds os env c' d := by
  unfold Succeeds Makes
  rw [apply]
  split_ifs with hempty
  · simp
  · cases hread : o.read (env o.name) c with
    | mk shown result =>
      cases result with
      | error e => simp
      | ok c' => simp

/-! ## Words -/

/-- **The texts that are taken for a word**: numerals whose magnitude is in range and that do not
    begin with a minus sign.  A minus sign behind blanks takes the complement. -/
theorem unsigned?_eq_some_iff {value : Text} {w : UInt64} : unsigned? value = some w ↔
    ∃ negative m, Spells value negative m ∧ value.head? ≠ some (Text.byte '-') ∧
      m < UInt64.size ∧ (w.toNat : Int) = intOf negative m % UInt64.size := by
  unfold unsigned?
  constructor
  · intro h
    cases hread : Numeral.read? value with
    | none =>
      rw [hread] at h
      cases h
    | some n =>
      obtain ⟨negative, m, rest⟩ := n
      simp only [hread] at h
      split at h
      · cases h
      · next hrefused =>
        rw [not_or, ne_eq, not_not] at hrefused
        obtain ⟨rfl, hhead⟩ := hrefused
        obtain ⟨hm, hw⟩ := Option.ite_none_right_eq_some.1 h
        exact ⟨negative, m, read?_eq_some_iff.1 hread, hhead, hm,
          Option.some.inj hw ▸ toNat_complement hm⟩
  · rintro ⟨negative, m, hspells, hhead, hm, hw⟩
    rw [read?_eq_some_iff.2 hspells]
    simp only [Numeral.unsigned?, ne_eq, not_true_eq_false, hhead, or_self, if_false, if_pos hm,
      Option.some.injEq]
    rw [← UInt64.toNat_inj, ← Int.ofNat_inj, hw]
    exact toNat_complement hm

/-- The integer of a numeral that is taken for a word, if it is small enough. -/
def within? (limit : Nat) (value : Text) : Option Int :=
  (unsigned? value).bind fun w => if w.toNat ≤ limit then some w.toNat else none

theorem within?_eq_some_iff {limit : Nat} {value : Text} {z : Int} : within? limit value = some z ↔
    ∃ negative m, Spells value negative m ∧ value.head? ≠ some (Text.byte '-') ∧
      m < UInt64.size ∧ z = intOf negative m % UInt64.size ∧ z ≤ limit := by
  simp only [within?, Option.bind_eq_some_iff, Option.ite_none_right_eq_some, Option.some.injEq]
  constructor
  · rintro ⟨w, hw, hlimit, rfl⟩
    obtain ⟨negative, m, hspells, hhead, hm, hvalue⟩ := unsigned?_eq_some_iff.1 hw
    exact ⟨negative, m, hspells, hhead, hm, hvalue, Int.ofNat_le.2 hlimit⟩
  · rintro ⟨negative, m, hspells, hhead, hm, rfl, hlimit⟩
    rw [← toNat_complement hm] at hlimit ⊢
    exact ⟨_, unsigned?_eq_some_iff.2 ⟨negative, m, hspells, hhead, hm, toNat_complement hm⟩,
      Int.ofNat_le.1 hlimit, rfl⟩

/-! ## Settings -/

section
variable {α : Type} {read : Text → Option α} {set : α → Config → Config} {old new : α}
  {name value : Text}

/-- What a variable makes of a setting: nothing if it is empty, else what it is read as. -/
def Takes (read : Text → Option α) (value : Text) (old new : α) : Prop :=
  value = [] ∧ new = old ∨ read value = some new

theorem exists_takes_iff :
    (∃ new, Takes read value old new) ↔ value = [] ∨ ∃ new, read value = some new := by
  simp only [Takes, exists_or, exists_and_left, exists_eq, and_true]

/-- An override that reads a setting. -/
theorem makes_iff (hread : ∀ value, (o.read value c).2.toOption = (read value).map (set · c))
    (hempty : read [] = none) (hold : set old c = c) :
    o.Makes env c c' ↔ ∃ new, Takes read (env o.name) old new ∧ c' = set new c := by
  unfold Makes Takes
  by_cases h : env o.name = []
  · simp [h, hempty, hold]
  · have hread := hread (env o.name)
    simp only [h, if_false, false_and, false_or]
    cases hvalue : read (env o.name) with
    | none =>
      rw [hvalue] at hread
      cases hresult : (o.read (env o.name) c).2 with
      | error e => simp
      | ok c' => simp [hresult, Except.toOption] at hread
    | some new =>
      rw [hvalue] at hread
      cases hresult : (o.read (env o.name) c).2 with
      | error e => simp [hresult, Except.toOption] at hread
      | ok d =>
        obtain rfl : d = set new c := by simpa [hresult, Except.toOption] using hread
        simp [eq_comm]

theorem makes_unsigned {set : UInt64 → Config → Config} (old : UInt64) (hold : set old c = c) :
    (unsigned name set).Makes env c c' ↔
      ∃ new, Takes unsigned? (env name) old new ∧ c' = set new c := by
  refine makes_iff (o := unsigned name set) (fun value => ?_) rfl hold
  simp only [unsigned]
  cases unsigned? value <;> rfl

theorem makes_integer {set : Int → Config → Config} (old : Int) (hold : set old c = c) :
    (integer name set).Makes env c c' ↔
      ∃ new, Takes (within? maxInt) (env name) old new ∧ c' = set new c := by
  refine makes_iff (o := integer name set) (fun value => ?_) rfl hold
  simp only [integer, within?]
  cases unsigned? value with
  | none => rfl
  | some w =>
    by_cases hw : w.toNat ≤ maxInt <;> simp [hw, Nat.not_lt.2, Nat.not_le.1, Except.toOption]

theorem makes_number {set : Binary64 → Config → Config} (old : Binary64) (hold : set old c = c) :
    (number name set).Makes env c c' ↔
      ∃ new, Takes number? (env name) old new ∧ c' = set new c := by
  refine makes_iff (o := number name set) (fun value => ?_) rfl hold
  simp only [number]
  cases number? value <;> rfl

end

/-- **An environment that is accepted** gives every setting what its variable makes of it, and
    leaves the others alone. -/
theorem succeeds_all : Succeeds all env c d ↔ ∃ size timeout maxItems queueCapacity fraction,
    Takes unsigned? (env "KILN_WORKERS") c.pool.size size ∧
    Takes (within? maxInt) (env "KILN_WORKER_TIMEOUT_MS") c.pool.timeout timeout ∧
    Takes unsigned? (env "KILN_MAX_ITEMS_PER_WORKER") c.pool.maxItems maxItems ∧
    Takes unsigned? (env "KILN_QUEUE_CAPACITY") c.pool.queueCapacity queueCapacity ∧
    Takes number? (env "KILN_MAX_REBUILD_FRACTION") c.policy.fraction fraction ∧
    d = { c with
      pool := { c.pool with size, timeout, maxItems, queueCapacity }
      policy := { c.policy with fraction } } := by
  simp only [all, succeeds_cons, succeeds_nil]
  constructor
  · rintro ⟨_, h₁, _, h₂, _, h₃, _, h₄, _, h₅, rfl⟩
    obtain ⟨size, hsize, rfl⟩ := (makes_unsigned c.pool.size rfl).1 h₁
    obtain ⟨timeout, htimeout, rfl⟩ := (makes_integer c.pool.timeout rfl).1 h₂
    obtain ⟨maxItems, hmaxItems, rfl⟩ := (makes_unsigned c.pool.maxItems rfl).1 h₃
    obtain ⟨capacity, hcapacity, rfl⟩ := (makes_unsigned c.pool.queueCapacity rfl).1 h₄
    obtain ⟨fraction, hfraction, rfl⟩ := (makes_number c.policy.fraction rfl).1 h₅
    exact ⟨size, timeout, maxItems, capacity, fraction, hsize, htimeout, hmaxItems, hcapacity,
      hfraction, rfl⟩
  · rintro ⟨size, timeout, maxItems, capacity, fraction, hsize, htimeout, hmaxItems, hcapacity,
      hfraction, rfl⟩
    exact ⟨_, (makes_unsigned c.pool.size rfl).2 ⟨size, hsize, rfl⟩,
      _, (makes_integer c.pool.timeout rfl).2 ⟨timeout, htimeout, rfl⟩,
      _, (makes_unsigned c.pool.maxItems rfl).2 ⟨maxItems, hmaxItems, rfl⟩,
      _, (makes_unsigned c.pool.queueCapacity rfl).2 ⟨capacity, hcapacity, rfl⟩,
      _, (makes_number c.policy.fraction rfl).2 ⟨fraction, hfraction, rfl⟩, rfl⟩

/-- Every word is small enough to be one. -/
theorem within?_word (value : Text) :
    within? (UInt64.size - 1) value = (unsigned? value).map fun w => (w.toNat : Int) := by
  have hlimit (w : UInt64) : w.toNat ≤ UInt64.size - 1 := Nat.le_sub_one_of_lt w.toNat_lt_size
  simp only [within?, hlimit, if_true]
  cases unsigned? value <;> rfl

theorem takes_unsigned_iff {value : Text} {old new : UInt64} : Takes unsigned? value old new ↔
    Takes (within? (UInt64.size - 1)) value (old.toNat : Int) (new.toNat : Int) := by
  simp only [Takes, within?_word, Option.map_eq_some_iff, Int.ofNat_inj, UInt64.toNat_inj,
    exists_eq_right]

theorem exists_takes_unsigned_iff {value : Text} {old : UInt64} :
    (∃ new, Takes unsigned? value old new) ↔
      ∃ new, Takes (within? (UInt64.size - 1)) value (old.toNat : Int) new := by
  simp only [exists_takes_iff, within?_word]
  cases unsigned? value <;> simp

end Override

/-! ## Settings that are integers -/

/-- A setting that takes an integer: its variable, its value, and what it has room for. -/
structure IntegerSetting where
  name : Text
  get : Config → Int
  limit : Nat

namespace IntegerSetting

open Override

variable {env : Text → Text} {c d : Config} {s : IntegerSetting}

/-- The settings of a pool that the environment can override. -/
def all : List IntegerSetting :=
  [⟨"KILN_WORKERS", fun c => c.pool.size.toNat, UInt64.size - 1⟩,
   ⟨"KILN_WORKER_TIMEOUT_MS", fun c => c.pool.timeout, maxInt⟩,
   ⟨"KILN_MAX_ITEMS_PER_WORKER", fun c => c.pool.maxItems.toNat, UInt64.size - 1⟩,
   ⟨"KILN_QUEUE_CAPACITY", fun c => c.pool.queueCapacity.toNat, UInt64.size - 1⟩]

/-- The texts that a setting takes: the empty one, and the numerals of a word that it has room for,
    unless the first byte is a minus sign. -/
def Accepts (s : IntegerSetting) (value : Text) : Prop :=
  value = [] ∨ ∃ negative m, Spells value negative m ∧ value.head? ≠ some (Text.byte '-') ∧
    m < UInt64.size ∧ intOf negative m % UInt64.size ≤ s.limit

theorem accepts_iff {value : Text} (old : Int) :
    s.Accepts value ↔ ∃ new, Takes (within? s.limit) value old new := by
  simp only [exists_takes_iff, within?_eq_some_iff, Accepts]
  refine or_congr_right ⟨?_, ?_⟩
  · rintro ⟨negative, m, hspells, hhead, hm, hlimit⟩
    exact ⟨_, negative, m, hspells, hhead, hm, rfl, hlimit⟩
  · rintro ⟨_, negative, m, hspells, hhead, hm, rfl, hlimit⟩
    exact ⟨negative, m, hspells, hhead, hm, hlimit⟩

theorem takes_of_succeeds (h : Succeeds Override.all env c d) (hs : s ∈ all) :
    Takes (within? s.limit) (env s.name) (s.get c) (s.get d) := by
  obtain ⟨size, timeout, maxItems, capacity, fraction, hsize, htimeout, hmaxItems, hcapacity, -,
    rfl⟩ := succeeds_all.1 h
  simp only [all, List.mem_cons, List.not_mem_nil, or_false] at hs
  rcases hs with rfl | rfl | rfl | rfl
  · exact takes_unsigned_iff.1 hsize
  · exact htimeout
  · exact takes_unsigned_iff.1 hmaxItems
  · exact takes_unsigned_iff.1 hcapacity

/-- **An environment is accepted** exactly if every text in it is. -/
theorem exists_succeeds_iff : (∃ d, Succeeds Override.all env c d) ↔
    (∀ s ∈ all, s.Accepts (env s.name)) ∧
      (env "KILN_MAX_REBUILD_FRACTION" = [] ∨
        ∃ x, number? (env "KILN_MAX_REBUILD_FRACTION") = some x) := by
  constructor
  · rintro ⟨d, h⟩
    refine ⟨fun s hs => (accepts_iff (s.get c)).2 ⟨_, takes_of_succeeds h hs⟩, ?_⟩
    obtain ⟨-, -, -, -, fraction, -, -, -, -, hfraction, -⟩ := succeeds_all.1 h
    exact exists_takes_iff.1 ⟨fraction, hfraction⟩
  · rintro ⟨h, hfraction⟩
    simp only [all, List.forall_mem_cons] at h
    obtain ⟨hsize, htimeout, hmaxItems, hcapacity, -⟩ := h
    obtain ⟨size, hsize⟩ := exists_takes_unsigned_iff.2 ((accepts_iff c.pool.size.toNat).1 hsize)
    obtain ⟨timeout, htimeout⟩ := (accepts_iff c.pool.timeout).1 htimeout
    obtain ⟨maxItems, hmaxItems⟩ :=
      exists_takes_unsigned_iff.2 ((accepts_iff c.pool.maxItems.toNat).1 hmaxItems)
    obtain ⟨capacity, hcapacity⟩ :=
      exists_takes_unsigned_iff.2 ((accepts_iff c.pool.queueCapacity.toNat).1 hcapacity)
    obtain ⟨fraction, hfraction⟩ := exists_takes_iff.2 hfraction
    exact ⟨_, succeeds_all.2 ⟨size, timeout, maxItems, capacity, fraction, hsize, htimeout,
      hmaxItems, hcapacity, hfraction, rfl⟩⟩

/-- What is taken for an integer is its remainder in a word, so it is itself if not negative. -/
theorem of_takes {value : Text} {limit : Nat} {old new : Int}
    (h : Takes (within? limit) value old new) :
    (value = [] → new = old) ∧ ∀ negative m, Spells value negative m →
      new = intOf negative m % UInt64.size ∧ (new = intOf negative m ↔ 0 ≤ intOf negative m) := by
  rcases h with ⟨rfl, rfl⟩ | h
  · refine ⟨fun _ => rfl, fun negative m hspells => ?_⟩
    rw [← read?_eq_some_iff] at hspells
    cases hspells
  · obtain ⟨negative, m, hspells, -, hm, rfl, -⟩ := within?_eq_some_iff.1 h
    refine ⟨?_, fun negative' m' hspells' => ?_⟩
    · rintro rfl
      cases h
    · obtain ⟨rfl, rfl⟩ := hspells.unique hspells'
      unfold UInt64.size at *
      refine ⟨rfl, ?_⟩
      cases negative <;> simp only [intOf] <;> omega

end IntegerSetting

/-- **The integers of the environment.**  It is accepted exactly if each variable of an integer is
    empty or a numeral of a word that its setting has room for, without a minus sign as the first
    byte, and the fraction is empty or a number.  Then a setting whose variable is empty stays as it
    is, and another holds the remainder in a word of the integer of its text, which is that integer
    exactly if it is not negative. -/
theorem Config.applyEnvironment_integers (env : Text → Text) (c : Config) :
    ((c.applyEnvironment env).error = none ↔
      (∀ s ∈ IntegerSetting.all, s.Accepts (env s.name)) ∧
        (env "KILN_MAX_REBUILD_FRACTION" = [] ∨
          ∃ x, Override.number? (env "KILN_MAX_REBUILD_FRACTION") = some x)) ∧
    ((c.applyEnvironment env).error = none → ∀ s ∈ IntegerSetting.all,
      (env s.name = [] → s.get (c.applyEnvironment env).config = s.get c) ∧
      ∀ negative m, Spells (env s.name) negative m →
        s.get (c.applyEnvironment env).config = intOf negative m % UInt64.size ∧
        (s.get (c.applyEnvironment env).config = intOf negative m ↔ 0 ≤ intOf negative m)) := by
  refine ⟨?_, fun h s hs => IntegerSetting.of_takes (IntegerSetting.takes_of_succeeds ⟨h, rfl⟩ hs)⟩
  rw [← IntegerSetting.exists_succeeds_iff (c := c)]
  exact ⟨fun h => ⟨_, h, rfl⟩, fun ⟨_, h, _⟩ => h⟩

/-- A configuration with the limits that a pool has by default. -/
def plainConfig : Config :=
  { roots := ⟨["/p"], "l"⟩, destination := "/out", stateDir := "/state", toolchain := "lc",
    command := ["lc"] }

/-- Integers in three spellings. -/
def spelledOut (name : Text) : Text :=
  if name = "KILN_WORKERS" then " +12" else if name = "KILN_WORKER_TIMEOUT_MS" then "007" else
    if name = "KILN_QUEUE_CAPACITY" then "18446744073709551615" else []

theorem Config.applyEnvironment_integers_spelledOut :
    (plainConfig.applyEnvironment spelledOut).error = none ∧
      Spells (spelledOut "KILN_WORKERS") false 12 ∧
      ((plainConfig.applyEnvironment spelledOut).config.pool.size.toNat : Int) = 12 := by
  have haccepted : (plainConfig.applyEnvironment spelledOut).error = none := by decide
  have hspells : Spells (spelledOut "KILN_WORKERS") false 12 := read?_eq_some_iff.1 (by decide)
  obtain ⟨-, hsettings⟩ := applyEnvironment_integers spelledOut plainConfig
  obtain ⟨-, hget⟩ := hsettings haccepted _ List.mem_cons_self
  exact ⟨haccepted, hspells, (hget false 12 hspells).2.2 (by decide)⟩

/-- An environment that asks for fewer workers than none. -/
def belowNone (name : Text) : Text := if name = "KILN_WORKERS" then " -5" else []

/-- **A negative number is taken**, for a very large one, if a blank stands in front of it. -/
theorem Config.negative_taken :
    Spells (belowNone "KILN_WORKERS") true 5 ∧
      (plainConfig.applyEnvironment belowNone).error = none ∧
      (plainConfig.applyEnvironment belowNone).config.pool.size = 18446744073709551611 :=
  ⟨read?_eq_some_iff.1 (by decide), by decide, by decide⟩

end Rebuild
