/-
  The threshold of a gate refuses nothing that its filter lets through.

  * `Filter.lowest_isLowest`: the lowest level of a filter is one that the filter has for some
    topics, and none lies below it;
  * `Gate.passes_ofFilter`: behind the threshold that is made of a filter, the filter decides alone;
  * `Logger.gate_run`: whatever is done to a logger, in whatever order, its threshold is the one
    that is made of its filter, and the filter is what the same calls make of a filter alone.

  `Logger.threshold_exact` says what this means for levels and entries.
-/
import Mathlib.Data.List.Induction
import Mathlib.Tactic.Common
import Rebuild.Log.Logger

namespace Rebuild.Log

/-! ## The lowest level -/

namespace Level

variable {a b c : Level}

protected theorem le_refl (a : Level) : a ≤ a := Nat.le_refl a.rank

protected theorem le_trans (h : a ≤ b) (h' : b ≤ c) : a ≤ c := Nat.le_trans (m := b.rank) h h'

protected theorem le_of_not_le (h : ¬ a ≤ b) : b ≤ a := Nat.le_of_not_le h

theorem least_spec (a b : Level) : a.least b ≤ a ∧ a.least b ≤ b ∧ (a.least b = a ∨ a.least b = b) := by
  unfold least
  split_ifs with h
  · exact ⟨Level.le_refl a, h, Or.inl rfl⟩
  · exact ⟨Level.le_of_not_le h, Level.le_refl b, Or.inr rfl⟩

/-- The lowest of some levels is one of them, and none lies below it. -/
theorem foldl_least (ls : List Level) (a : Level) :
    ls.foldl least a ∈ a :: ls ∧ ∀ l ∈ a :: ls, ls.foldl least a ≤ l := by
  induction ls generalizing a with
  | nil => exact ⟨List.mem_cons_self, by simp [Level.le_refl]⟩
  | cons b ls ih =>
    obtain ⟨hle, hle', heq⟩ := least_spec a b
    obtain ⟨hmem, hlow⟩ := ih (a.least b)
    have hfirst := hlow _ List.mem_cons_self
    rw [List.foldl_cons]
    refine ⟨?_, ?_⟩
    · rcases List.mem_cons.1 hmem with h | h
      · rw [h]
        rcases heq with h | h <;> simp [h]
      · exact List.mem_cons_of_mem _ (List.mem_cons_of_mem _ h)
    · rw [List.forall_mem_cons, List.forall_mem_cons]
      exact ⟨Level.le_trans hfirst hle, Level.le_trans hfirst hle',
        fun l hl => hlow l (List.mem_cons_of_mem _ hl)⟩

end Level

namespace Filter

variable {f : Filter} {l : Level}

/-- The filter has this level for some topics: for one of its own, or for all the others. -/
def Has (f : Filter) (l : Level) : Prop := f.fallback = l ∨ ∃ topic : Text, f.topics[topic]? = some l

/-- The filter has this level for some topics, and none that lies below it. -/
structure IsLowest (f : Filter) (l : Level) : Prop where
  has : f.Has l
  le : ∀ l', f.Has l' → l ≤ l'

theorem has_levelOf (f : Filter) (topic : Text) : f.Has (f.levelOf topic) := by
  unfold Has levelOf
  rw [Std.ExtTreeMap.getD_eq_getD_getElem?]
  cases h : f.topics[topic]? with
  | none => exact Or.inl rfl
  | some l => exact Or.inr ⟨topic, h⟩

/-- The levels of a filter, that of all the other topics in front. -/
def levels (f : Filter) : List Level := f.fallback :: f.topics.toList.map (·.2)

theorem has_iff : f.Has l ↔ l ∈ f.levels := by
  rw [Has, levels, List.mem_cons, List.mem_map, eq_comm]
  simp only [Prod.exists, Std.ExtTreeMap.mem_toList_iff_getElem?_eq_some, exists_eq_right]

theorem lowest_isLowest (f : Filter) : f.IsLowest f.lowest := by
  have hlowest : f.lowest = (f.topics.toList.map (·.2)).foldl Level.least f.fallback := by
    rw [lowest, Std.ExtTreeMap.foldl_eq_foldl_toList, List.foldl_map]
  obtain ⟨hmem, hle⟩ := Level.foldl_least (f.topics.toList.map (·.2)) f.fallback
  rw [hlowest]
  exact ⟨has_iff.2 hmem, fun l hl => hle l (has_iff.1 hl)⟩

end Filter

/-! ## Behind the threshold -/

namespace Gate

/-- **Behind the threshold of a filter, the filter decides alone.** -/
theorem passes_ofFilter (f : Filter) (level : Level) (topic : Text) :
    (ofFilter f).passes level topic = f.passes level topic := by
  unfold passes ofFilter
  split_ifs with h
  · rfl
  · have hle := f.lowest_isLowest.le _ (f.has_levelOf topic)
    exact (decide_eq_false fun hpass => h (Level.le_trans hle hpass)).symm

end Gate

/-! ## What is done to a logger -/

namespace Logger

/-- A call of a logger. -/
inductive Call
  | init (options : Options) (fileOpen : Bool)
  | setLevel (level : Level)
  | setFilter (spec : Text)
  | addSink (sink : Sink)
  | clearSinks
  | write (stamp : Text) (e : Entry)
  | report (stamp : Text) (e : Entry)
  | flush

/-- The logger behind a call. -/
def call (l : Logger) : Call → Logger
  | .init options fileOpen => (l.init options fileOpen).1
  | .setLevel level => l.setLevel level
  | .setFilter spec => l.setFilter spec
  | .addSink sink => l.addSink sink
  | .clearSinks => l.clearSinks.1
  | .write stamp e => (l.write stamp e).1
  | .report stamp e => (l.report stamp e).1
  | .flush => l.flush.1

/-- What a call makes of a filter without a threshold. -/
def Call.filter (f : Filter) : Call → Filter
  | .init options _ => ({ fallback := options.level } : Filter).parse options.filter
  | .setLevel level => { f with fallback := level }
  | .setFilter spec => f.parse spec
  | _ => f

/-- The logger behind some calls, from the one that a process begins with. -/
def run (calls : List Call) : Logger := calls.foldl call {}

/-- What they make of a filter without a threshold. -/
def filterOf (calls : List Call) : Filter := calls.foldl Call.filter {}

/-- One call keeps the threshold the one that is made of the filter. -/
theorem gate_call {l : Logger} {f : Filter} (h : l.gate = .ofFilter f) (c : Call) :
    (l.call c).gate = .ofFilter (c.filter f) := by
  cases c with
  | init => rfl
  | addSink | clearSinks | write | flush => exact h
  | setLevel level => rw [call, setLevel, h]; rfl
  | setFilter spec => rw [call, setFilter, h]; rfl
  | report stamp e =>
    rw [call, report]
    split_ifs <;> exact h

/-- **Any calls keep the threshold** the one that is made of the filter. -/
theorem gate_run (calls : List Call) : (run calls).gate = .ofFilter (filterOf calls) := by
  induction calls using List.reverseRecOn with
  | nil => rfl
  | append_singleton calls c ih =>
    rw [run, filterOf, List.foldl_append, List.foldl_append]
    exact gate_call ih c

/-- **The threshold of a logger hides nothing.**  Whatever was done to the logger, an entry passes
    exactly if the filter alone lets it through, as it is after the same calls without a threshold;
    and the threshold is the lowest level that this filter has for any topics. -/
theorem threshold_exact (calls : List Call) :
    (run calls).gate.filter = filterOf calls ∧
    (filterOf calls).IsLowest (run calls).gate.threshold ∧
    (∀ level topic, (run calls).gate.passes level topic = (filterOf calls).passes level topic) ∧
    ∀ stamp e, (run calls).report stamp e =
      if (filterOf calls).passes e.level e.topic then (run calls).write stamp e
      else (run calls, []) := by
  have hpasses (level : Level) (topic : Text) :
      (run calls).gate.passes level topic = (filterOf calls).passes level topic := by
    rw [gate_run, Gate.passes_ofFilter]
  refine ⟨by rw [gate_run]; rfl, ?_, hpasses, fun stamp e => by rw [report, hpasses]⟩
  rw [gate_run]
  exact (filterOf calls).lowest_isLowest

end Logger

end Rebuild.Log
