/-
  Builds: one invocation from its configuration to the saved analysis.

      validate → load → survey → select → delete → compile → merge → save

  * groups are compiled as soon as all groups that they need are compiled;
  * the analysis is saved once, at the end, also if the build was cancelled: what was
    compiled is recorded, and the rest is as it was before.
-/
import Rebuild.Analysis.Store
import Rebuild.Build.Compile
import Rebuild.Build.Schedule
import Rebuild.Machine.Shell.Launch
import Rebuild.Machine.Survey
import Rebuild.Plan.Account
import Rebuild.Plan.Merge
import Rebuild.Worker.Workplace

namespace Rebuild

/-- A build with all that it works on.  A filter on items may leave something in a journal
    of type `J`. -/
structure Build (J : Type) where
  config : Config
  /-- The number of processors. -/
  processors : Nat
  /-- What tells this process from others. -/
  process : Text
  pool : PoolRun Workplace
  filter : Action J Dispatch := .nothing
  journal : J
  cancelled : Bool := false
  /-- What became of the groups so far, with their records. -/
  settled : List (GroupReport × List UnitRecord) := []

namespace Build

variable {J : Type}

/-- A build with workers of a kind. -/
def make (config : Config) (processors : Nat) (process : Text) (kind : WorkerKind Workplace)
    (machine : Machine) (filter : Action J Dispatch) (journal : J) : Build J :=
  let pool := PoolRun.start kind (Pool.make config.pool processors) ⟨machine, ∅⟩
  { config, processors, process, pool, filter, journal }

/-- No group is compiled from now on. -/
def cancel (b : Build J) : Build J := { b with cancelled := true, pool := b.pool.cancel }

/-- The files. -/
def tree (b : Build J) : FileTree := b.pool.world.machine.tree

/-- The build with other files. -/
def withTree (b : Build J) (t : FileTree) : Build J := { b with pool.world.machine.tree := t }

/-- Tells something. -/
def tell (b : Build J) (entries : List Log.Entry) : Build J :=
  { b with pool.log := b.pool.log ++ entries }

/-- Carries out a script of file operations. -/
def runScript {α : Type} (b : Build J) (s : FileScript α) : α × Build J :=
  let (a, t) := b.tree.run s
  (a, b.withTree t)

/-- The store of analyses. -/
def store (b : Build J) : AnalysisStore :=
  ⟨b.config.stateDir, b.config.fallbackStateDir, b.config.roots.identity, b.process⟩

/-! ## Before compiling -/

/-- The analysis of the build before. -/
def load (b : Build J) : LoadOutcome × Build J :=
  let (prior, b) := b.runScript (b.store.load b.config.fingerprint)
  (prior, b.tell [AnalysisStore.loadEntry prior])

/-- What the sources look like. -/
def survey (b : Build J) : Snapshots × Build J :=
  let (sources, entries) := b.tree.sources b.config.roots
  let threads := if b.config.snapshotThreads = 0 then b.processors else b.config.snapshotThreads
  let (current, more) := b.tree.survey sources threads
  (current, b.tell (entries ++ more))

/-- Deletes one output; whether it was there. -/
def deleteOne (b : Build J) (artifact : Text) : Bool × Build J :=
  match b.tree.remove artifact with
  | .ok (removed, t) => (removed, b.withTree t)
  | .error fault => (false, b.tell [⟨.warn, "build", "Cannot delete stale artifact " ++ artifact ++
      ": " ++ fault.message⟩])

/-- Deletes outputs. -/
def delete (b : Build J) (artifacts : List Text) : Build J :=
  let (removed, b) := artifacts.foldl (fun ((n, b) : Nat × Build J) artifact =>
    let (removed, b) := b.deleteOne artifact
    (n + removed.toNat, b)) (0, b)
  if artifacts.isEmpty then b
  else b.tell [⟨.debug, "build", "Deleted " ++ Text.ofNat removed ++ " of " ++
    Text.ofNat artifacts.length ++ " stale artifacts"⟩]

/-! ## Compiling -/

/-- Makes the directory for the manifests. -/
def prepare (b : Build J) : Build J :=
  let dir := b.config.manifestDir
  let (t, fault) := b.tree.attempt (b.tree.makeDirectories dir)
  (b.withTree t).tell <| fault.toList.map fun fault =>
    ⟨.warn, "build", "Cannot create " ++ dir ++ ": " ++ fault.message⟩

/-- The result of the item of a group. -/
def resultOf (b : Build J) (index : Nat) (g : Group) : WorkResult × Build J :=
  let b := b.prepare
  let item := b.config.item index g
  let (result, journal, pool) := b.pool.complete b.filter b.journal item
  let result := result.getD (.failed item.id .crashed [])
  (result, { b with journal, pool }.tell (g.resultEntries index result))

/-- The report on a group that was cancelled before it could be compiled. -/
def cancelledReport (index : Nat) (g : Group) : GroupReport :=
  { group := index, units := g.units.keys, failure := some ⟨.cancelled, "build cancelled"⟩ }

/-- Compiles a group; whether that succeeded. -/
def compile (groups : List Group) (b : Build J) (index : Nat) : Bool × Build J :=
  match groups[index]? with
  | none => (false, b)
  | some g =>
    let (settled, b) :=
      if b.cancelled then ((cancelledReport index g, []), b)
      else
        let (result, after) := b.resultOf index g
        (g.settle b.config.roots.current index result, after)
    (settled.1.succeeded, { b with settled := b.settled ++ [settled] })

/-- The report on a group of which nothing was compiled. -/
def givenUpReport (s : Schedule) (index : Nat) (g : Group) : GroupReport :=
  let diagnostics : Text := match s.givenUp.find? (·.1 == index) with
    | some (_, cause) => "not compiled: dependency group " ++ Text.ofNat cause ++ " failed"
    | none => []
  { group := index, units := g.units.keys, diagnostics }

/-- Compiles the groups: what became of each. -/
def compileAll (b : Build J) (groups : List Group) : List (GroupReport × List UnitRecord) × Build J :=
  let (b, s) := (Schedule.start (groups.map (·.needs.toList))).run (compile groups) b
  let settled := groups.zipIdx.map fun (g, i) =>
    (b.settled.find? (·.1.group == i)).getD (givenUpReport s i g, [])
  (settled, b)

/-- The outcome that a merge takes. -/
def outcome (settled : GroupReport × List UnitRecord) : Outcome :=
  ⟨settled.1.group, settled.1.succeeded, settled.2, settled.1.diagnostics⟩

/-! ## After compiling -/

/-- Saves an analysis. -/
def save (b : Build J) (a : Analysis) : Except Text Text × Build J :=
  let (r, b) := b.runScript (b.store.save a)
  let b := b.tell (b.store.saveEntries a r)
  match r.result with
  | .ok file => (.ok file, b)
  | .error why => (.error why, b.tell [⟨.warn, "build",
      "Analysis not saved, next build will rebuild everything: " ++ why⟩])

/-- Carries out a plan. -/
def carryOut (b : Build J) (prior : LoadOutcome) (plan : Plan) : BuildReport × Build J :=
  let b := b.delete plan.delete.toList
  let (settled, b) := b.compileAll plan.groups
  let groups := settled.map (·.1)
  let b := b.tell (groups.flatMap GroupReport.entries)
  let outcomes := settled.map outcome
  let next := merge prior.usable? plan outcomes b.config.fingerprint
  let b := b.tell [Merge.entry plan outcomes next]
  let (saved, b) := b.save next
  let report : BuildReport := ⟨plan, groups, saved, b.cancelled⟩
  (report, b.tell [report.entry b.pool.now])

/-- The build from its configuration to its report; the workers stay. -/
def run (b : Build J) : Except ConfigError BuildReport × Build J :=
  match b.config.validate b.processors with
  | .error e => (.error e, b)
  | .ok () =>
    let (prior, b) := b.load
    let (current, b) := b.survey
    let s := Selection.make b.config.roots b.config.policy prior current
    let b := b.tell (s.account b.config.roots prior current)
    match s.plan with
    | .error e => (.error (.roots e), b)
    | .ok plan =>
      let (report, b) := b.carryOut prior plan
      (.ok report, b)

/-- Stops the workers. -/
def close (b : Build J) : Build J := { b with pool := b.pool.shutdown }

end Build

end Rebuild
