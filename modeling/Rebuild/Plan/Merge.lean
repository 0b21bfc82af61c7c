/-
  Merging: the analysis after a build.

  * a group that was compiled replaces the records of its units and sources, and what
    its sources look like is recorded (`Merge.commit`);
  * a group that failed, or that nothing is known of, keeps its records, but what its
    sources look like is forgotten, so that they are compiled again (`Merge.withhold`).
-/
import Rebuild.Plan.Selection

namespace Rebuild

/-- What became of a group. -/
structure Outcome where
  /-- The number of the group. -/
  group : Nat
  succeeded : Bool
  /-- The records of the units that were compiled. -/
  units : List UnitRecord
  message : Text := []

namespace Merge

/-- The last outcome of each group. -/
def byGroup (outcomes : List Outcome) : Std.ExtTreeMap Nat Outcome :=
  outcomes.foldl (fun m o => m.insert o.group o) ∅

/-- Records or forgets what a source looks like. -/
def note (snapshots : Snapshots) (a : Analysis) (source : Text) : Analysis :=
  match snapshots[source]? with
  | some s => if s.present then a.recordSnapshot source s else a.forgetSnapshot source
  | none => a.forgetSnapshot source

/-- The records of a compiled group in place of those of its sources and units. -/
def commit (snapshots : Snapshots) (a : Analysis) (g : Group) (records : List UnitRecord) :
    Analysis :=
  let a := g.sources.foldl (fun a source => (a.unitsOfSource source).foldl .removeUnit a) a
  let a := g.units.keys.foldl .removeUnit a
  let a := records.foldl .putUnit a
  g.sources.foldl (note snapshots) a

/-- The records of a group stay; its sources will differ from what is recorded. -/
def withhold (a : Analysis) (g : Group) : Analysis := g.sources.foldl .forgetSnapshot a

/-- Whether a group was compiled, and its records. -/
def committed? (outcomes : Std.ExtTreeMap Nat Outcome) (i : Nat) : Option (List UnitRecord) :=
  match outcomes[i]? with
  | some o => if o.succeeded then some o.units else none
  | none => none

/-- The analysis before any group is merged. -/
def start (prior : Option Analysis) (plan : Plan) (fingerprint : Text) : Analysis :=
  let a := match prior, plan.kind with
    | some a, .incremental => a.setFingerprint fingerprint
    | _, _ => .empty fingerprint
  let a := plan.purged.foldl .removeUnit a
  plan.changes.removed.foldl .forgetSnapshot a

/-- The number of groups that were compiled. -/
def committedCount (plan : Plan) (outcomes : List Outcome) : Nat :=
  let outcomes := byGroup outcomes
  ((List.range plan.groups.length).filter fun i => (committed? outcomes i).isSome).length

end Merge

/-- The analysis after a plan had these outcomes. -/
def merge (prior : Option Analysis) (plan : Plan) (outcomes : List Outcome) (fingerprint : Text) :
    Analysis :=
  let outcomes := Merge.byGroup outcomes
  plan.groups.zipIdx.foldl (fun a (g, i) =>
    match Merge.committed? outcomes i with
    | some records => Merge.commit plan.snapshots a g records
    | none => Merge.withhold a g) (Merge.start prior plan fingerprint)

/-- What is told about a merge. -/
def Merge.entry (plan : Plan) (outcomes : List Outcome) (merged : Analysis) : Log.Entry :=
  let committed := Merge.committedCount plan outcomes
  ⟨.debug, "recomp", "Merged " ++ Text.ofNat committed ++ " groups, kept prior state for " ++
    Text.ofNat (plan.groups.length - committed) ++ "; analysis now has " ++
    Text.ofNat merged.unitCount ++ " units"⟩

end Rebuild
