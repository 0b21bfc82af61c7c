/-
  Reports: what a build came to.

  Each unit of the plan has a status by what became of its group: `UnitStatus.compiled` if
  the group has records, `failed` and `cancelled` by its failure, and `skipped` if it was
  not compiled at all.
-/
import Rebuild.Log.Level
import Rebuild.Plan
import Rebuild.Worker.Item

namespace Rebuild

/-- What became of a unit. -/
inductive UnitStatus
  | compiled
  | failed
  | cancelled
  /-- A filter dropped its group, or a group that it needs has failed. -/
  | skipped
deriving DecidableEq, Repr

namespace UnitStatus

/-- The statuses in the order of their numbers. -/
def all : List UnitStatus := [compiled, failed, cancelled, skipped]

/-- The displayed name of a status. -/
def name : UnitStatus → Text
  | compiled => "compiled"
  | failed => "failed"
  | cancelled => "cancelled"
  | skipped => "skipped"

end UnitStatus

/-- What became of a group. -/
structure GroupReport where
  /-- The number of the group. -/
  group : Nat
  units : List Text
  succeeded : Bool := false
  failure : Option Failure := none
  /-- What the toolchain printed, or why the group was not compiled. -/
  diagnostics : Text := []
deriving DecidableEq, Repr

namespace GroupReport

/-- The status of the units of a group. -/
def status (r : GroupReport) : UnitStatus :=
  if r.succeeded then .compiled
  else match r.failure with
    | some f => if f.kind = .cancelled then .cancelled else .failed
    | none => .skipped

/-- What is told about the units of a group that has no records. -/
def entries (r : GroupReport) : List Log.Entry :=
  if r.status = .compiled then []
  else r.units.map fun unit => ⟨.debug, "build", "Unit " ++ unit ++ " " ++ r.status.name⟩

end GroupReport

/-- What a build came to. -/
structure BuildReport where
  plan : Plan
  groups : List GroupReport
  /-- The file with the record of the analysis, or why there is none. -/
  saved : Except Text Text
  cancelled : Bool

namespace BuildReport

/-- The status of each unit. -/
def units (r : BuildReport) : TextMap UnitStatus :=
  r.groups.foldl (fun m g => g.units.foldl (fun m unit => m.insert unit g.status) m) ∅

/-- The number of units with a status. -/
def count (r : BuildReport) (s : UnitStatus) : Nat := r.units.values.countP (· == s)

/-- Every unit of the plan was compiled. -/
def success (r : BuildReport) : Bool := !r.cancelled && r.count .compiled == r.units.size

/-- What is told at the end. -/
def entry (r : BuildReport) (elapsed : Nat) : Log.Entry :=
  let kind : Text := match r.plan.kind with
    | .full => "Full"
    | .incremental => "Incremental"
  let counted (s : UnitStatus) : Text := Text.ofNat (r.count s) ++ " " ++ s.name
  ⟨.info, "build", kind ++ " build: " ++ counted .compiled ++ ", " ++ counted .failed ++ ", " ++
    counted .skipped ++ ", " ++ counted .cancelled ++ " in " ++ Text.ofNat elapsed ++ " ms"⟩

end BuildReport

end Rebuild
