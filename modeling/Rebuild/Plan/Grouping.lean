/-
  Groups: which of the selected units are compiled together.

  * units that depend on one another are compiled together, and so are units of one
    source, since a source is compiled in one go; `Grouping.partition` joins the
    components that share a source;
  * `Grouping.make` lists the groups by the first of their components, and gives every
    group the other groups that hold a direct dependency of one of its units.
-/
import Rebuild.Graph.Components
import Rebuild.Partition
import Rebuild.Plan

namespace Rebuild.Grouping

/-- The selected units of each component, without components that have none. -/
def parts (g : Graph) (selected : TextSet) : List (List Text) :=
  (g.components.map (·.filter (selected.contains ·))).filter (· ≠ [])

/-- Parts joined so far, with the first part seen of each source. -/
structure Joining where
  partition : Partition
  owners : TextMap Nat

/-- Puts a unit with this source into part `i`: the part is joined to the first one with
    a unit of the source. -/
def Joining.claim (j : Joining) (i : Nat) (source : Text) : Joining :=
  match j.owners[source]? with
  | none => { j with owners := j.owners.insert source i }
  | some first => { j with partition := j.partition.join first i }

/-- The parts joined where they share a source. -/
def partition (sources : TextMap Text) (parts : List (List Text)) : Partition :=
  (parts.zipIdx.foldl (fun j (units, i) =>
    (units.filterMap (sources[·]?)).foldl (·.claim i) j)
    (⟨Partition.discrete parts.length, ∅⟩ : Joining)).partition

/-- The units of the parts in each class, by the first part of the class. -/
def classes (p : Partition) (parts : List (List Text)) : Std.ExtTreeMap Nat (List Text) :=
  parts.zipIdx.foldr (fun (units, i) classes =>
    let first := (p.find i).2
    classes.insert first (units ++ classes.getD first [])) ∅

/-- The group number of every unit. -/
def numbering (classes : List (List Text)) : TextMap Nat :=
  classes.zipIdx.foldl (fun m (units, i) => units.foldl (fun m u => m.insert u i) m) ∅

/-- The groups other than `i` that hold a direct dependency of one of the units. -/
def needs (g : Graph) (numbers : TextMap Nat) (i : Nat) (units : List Text) : NodeSet :=
  Std.ExtTreeSet.ofList
    ((units.flatMap fun u => (g.dependenciesOf u).filterMap (numbers[·]?)).filter (· ≠ i))

/-- Group `i`, made of these units. -/
def group (g : Graph) (sources : TextMap Text) (numbers : TextMap Nat) (i : Nat)
    (units : List Text) : Group where
  units := units.foldl (fun m u => m.insert u (sources.getD u [])) ∅
  sources := TextSet.ofTexts (units.filterMap (sources[·]?))
  needs := needs g numbers i units

/-- The groups of the selected units. -/
def make (g : Graph) (selected : TextSet) (sources : TextMap Text) : List Group :=
  let parts := parts g selected
  let classes := (classes (partition sources parts) parts).toList.map (·.2)
  let numbers := numbering classes
  classes.zipIdx.map fun (units, i) => group g sources numbers i units

end Rebuild.Grouping
