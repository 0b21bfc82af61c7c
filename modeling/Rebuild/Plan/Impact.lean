/-
  Impact: which units the changes reach.

  * the units of a source are those recorded for it or, if there is none, the one that
    its place names (`unitsOf`);
  * `Impact.ofClaims` collects the units of removed and of present sources that differ;
  * a unit is `live` if it is going to exist after the build;
  * `Impact.spread` adds all that depends on what is reached, the units that depend on
    every unit, and all units of a source that is compiled anyway, until nothing more
    is added.
-/
import Rebuild.Graph
import Rebuild.Roots

namespace Rebuild

/-- A unit and the source that stands for it. -/
abbrev Claim := Text × Text

/-- The units recorded for a source. -/
def recordedUnits (prior : Option Analysis) (source : Text) : List Text :=
  (prior.map (·.unitsOfSource source)).getD []

/-- The units of a source: those recorded for it, else the one that its place names. -/
def unitsOf (roots : Roots) (prior : Option Analysis) (source : Text) :
    Except RootsError (List Text) :=
  match recordedUnits prior source with
  | [] => (roots.unitName source).map fun unit => [unit]
  | units => .ok units

/-- The units of some sources, each with its source; the first error if there is one. -/
def claims (roots : Roots) (prior : Option Analysis) (sources : List Text) :
    Except RootsError (List Claim) :=
  (sources.mapM fun source =>
    (unitsOf roots prior source).map fun units => units.map fun unit => (unit, source)).map
      List.flatten

/-- What the changed sources themselves come to. -/
structure Impact where
  /-- The units of all changed sources. -/
  seeds : TextSet
  /-- The recorded units of removed sources. -/
  purged : TextSet
  /-- The source of each unit in this build. -/
  sources : TextMap Text
  /-- The units of present sources that have no record, or lose theirs. -/
  added : TextSet

namespace Impact

/-- The impact of the claims of removed sources and of changed present ones. -/
def ofClaims (a : Analysis) (removed changed : List Claim) : Impact :=
  let purged := TextSet.ofTexts ((removed.map (·.1)).filter (a.has ·))
  { seeds := TextSet.ofTexts (removed.map (·.1) ++ changed.map (·.1))
    purged
    sources := changed.foldl (fun m c => m.insert c.1 c.2)
      ((a.units.filter fun unit _ => !purged.contains unit).map fun _ r => r.source)
    added := TextSet.ofTexts ((changed.map (·.1)).filter fun unit =>
      !a.has unit || purged.contains unit) }

/-- The unit exists after the build. -/
def live (i : Impact) (unit : Text) : Bool :=
  i.sources.contains unit && (!i.purged.contains unit || i.added.contains unit)

/-- The units that exist after the build. -/
def liveUnits (i : Impact) : List Text := i.sources.keys.filter i.live

/-- The first of the units whose record says that its output spans the program. -/
def spanning? (a : Analysis) (i : Impact) : Option Text :=
  i.seeds.toList.find? fun unit => (a.find? unit).any (·.facts.contains wholeProgram)

/-- The dependencies between the recorded units, with the added units as nodes. -/
def graph (a : Analysis) (i : Impact) : Graph :=
  i.added.foldl (fun g unit => (g.addNode unit).1) (Graph.ofAnalysis a)

/-! ## Spreading -/

/-- The record makes its unit follow those already reached: it depends on every unit and
    one of them is live, or it shares a source with one of them. -/
def follows (i : Impact) (reached : TextSet) : UnitRecord → Bool :=
  let someLive := reached.toList.any i.live
  let touched := TextSet.ofTexts (reached.toList.filterMap (i.sources[·]?))
  fun r => (someLive && r.dependencies.contains wildcard) || touched.contains r.source

/-- The live units that follow those already reached. -/
def followers (a : Analysis) (i : Impact) (reached : TextSet) : List Text :=
  let follows := i.follows reached
  (a.units.toList.filter fun (unit, r) =>
    !reached.contains unit && i.live unit && follows r).map (·.1)

/-- A filter that keeps less than another one, and drops `x`, leaves a shorter list. -/
theorem length_filter_lt {α : Type} {l : List α} {p q : α → Bool} {x : α}
    (hpq : ∀ y, q y = true → p y = true) (hx : x ∈ l) (hp : p x = true) (hq : q x = false) :
    (l.filter q).length < (l.filter p).length := by
  have h : l.filter q = (l.filter p).filter q := by
    rw [List.filter_filter]
    apply List.filter_congr
    intro y _
    cases hy : q y with
    | false => rfl
    | true => simp [hpq y hy]
  rw [h, List.length_filter_lt_length_iff_exists]
  exact ⟨x, by simp [hx, hp], by simp [hq]⟩

theorem mem_followers {a : Analysis} {i : Impact} {reached : TextSet} {unit : Text}
    (h : unit ∈ followers a i reached) :
    reached.contains unit = false ∧ ∃ r, (unit, r) ∈ a.units.toList := by
  simp only [followers, List.mem_map, List.mem_filter, Bool.and_eq_true,
    Bool.not_eq_true'] at h
  obtain ⟨⟨n, r⟩, ⟨hmem, ⟨hout, _⟩, _⟩, rfl⟩ := h
  exact ⟨hout, r, hmem⟩

/-- One round: the followers, and all that depends on what is reached then. -/
def round (g : Graph) (a : Analysis) (i : Impact) (reached : TextSet) : TextSet :=
  g.closure (reached.insertMany (followers a i reached))

/-- The recorded units that are not reached. -/
def unreached (a : Analysis) (reached : TextSet) : List (Text × UnitRecord) :=
  a.units.toList.filter fun c => !reached.contains c.1

/-- A round with a follower reaches a unit that was not reached before. -/
theorem length_unreached_round_lt (g : Graph) {a : Analysis} {i : Impact} {reached : TextSet}
    (h : followers a i reached ≠ []) :
    (unreached a (round g a i reached)).length < (unreached a reached).length := by
  obtain ⟨unit, hu⟩ := List.exists_mem_of_ne_nil _ h
  obtain ⟨hout, r, hmem⟩ := mem_followers hu
  refine length_filter_lt (fun y hy => ?_) hmem (by simp [hout]) ?_
  · cases hc : reached.contains y.1 with
    | false => rfl
    | true =>
      have := g.contains_closure (reached.insertMany (followers a i reached)) y.1
        (by simp [Std.ExtTreeSet.contains_insertMany_list, hc])
      simp [round, this] at hy
  · have := g.contains_closure (reached.insertMany (followers a i reached)) unit
      (by simp [Std.ExtTreeSet.contains_insertMany_list, hu])
    simp [round, this]

/-- The units that changes reach, starting from those already reached. -/
def spread (g : Graph) (a : Analysis) (i : Impact) (reached : TextSet) : TextSet :=
  if _h : followers a i reached = [] then reached
  else spread g a i (round g a i reached)
termination_by (unreached a reached).length
decreasing_by exact length_unreached_round_lt g _h

/-- The units to compile: the live ones that the changes reach. -/
def selected (g : Graph) (a : Analysis) (i : Impact) : TextSet :=
  (spread g a i (g.closure i.seeds)).filter i.live

end Impact

end Rebuild
