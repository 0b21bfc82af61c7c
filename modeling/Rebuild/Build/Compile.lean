/-
  Compiling a group: the item that goes to a worker, and what comes of its result.

  * `Config.request` and `Config.item` say what is asked for a group;
  * `Group.settle` makes a report and records of the result.  The records of the units of
    the group get the sources of the plan, since that is how snapshots know them; other
    sources become paths from the current directory.
-/
import Rebuild.Build.Report
import Rebuild.Config
import Rebuild.Toolchain.Request

namespace Rebuild

namespace Config

/-- The manifest of a group. -/
def manifestOf (c : Config) (index : Nat) : Text :=
  Path.join c.manifestDir ("group-" ++ Text.ofNat index ++ ".deps")

/-- What is asked for a group. -/
def request (c : Config) (index : Nat) (g : Group) : CompileRequest :=
  ⟨g.units.toList, c.destination, c.command, c.manifestOf index⟩

/-- The item of a group. -/
def item (c : Config) (index : Nat) (g : Group) : Item :=
  ⟨UInt64.ofNat (index + 1), c.fingerprint, (c.request index g).encode⟩

end Config

namespace Group

/-- The source of a record as the plan or, for other units, the current directory has it. -/
def sourceOf (g : Group) (d : CurrentDirectory) (r : UnitRecord) : Text :=
  match g.units[r.name]? with
  | some (b :: bs) => b :: bs
  | _ => if r.source = [] then [] else Path.normalForm (Path.join d.path r.source)

/-- The record with that source. -/
def assignSource (g : Group) (d : CurrentDirectory) (r : UnitRecord) : UnitRecord :=
  { r with source := g.sourceOf d r }

/-- The report and the records of a group by the result of its item. -/
def settle (g : Group) (d : CurrentDirectory) (index : Nat) (r : WorkResult) :
    GroupReport × List UnitRecord :=
  let report : GroupReport := { group := index, units := g.units.keys }
  match r.outcome with
  | .skipped => ({ report with diagnostics := "skipped by dispatch filter" }, [])
  | .failed f => ({ report with diagnostics := f.message, failure := some f }, [])
  | .answered value =>
    match CompileResponse.decode? value with
    | none => ({ report with failure := some ⟨.crashed, "malformed compile response"⟩ }, [])
    | some response =>
      ({ report with succeeded := true, diagnostics := response.diagnostics },
        response.units.map (g.assignSource d))

/-- What is told about a result. -/
def resultEntries (g : Group) (index : Nat) (r : WorkResult) : List Log.Entry :=
  match r.failure? with
  | some f => [⟨.warn, "build", "Group " ++ Text.ofNat index ++ " (" ++ g.units.keys.headD [] ++
      ", " ++ Text.ofNat g.units.size ++ " units) " ++ f.kind.name ++ ": " ++ f.message⟩]
  | none => []

end Group

end Rebuild
