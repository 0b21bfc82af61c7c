/-
  The account of a selection: what is told about it.

  Every change of stage is told, every source that is named by its place, the number of
  changes and the plan that came out.  Entries follow the order in which a selection
  works: removed, modified, added sources, then, if everything is compiled, all sources.
-/
import Rebuild.Plan.Selection

namespace Rebuild

/-- What is told about naming sources, up to the first that cannot be named. -/
def namingAccount (roots : Roots) (prior : Option Analysis) : List Text → List Log.Entry
  | [] => []
  | source :: sources =>
    match recordedUnits prior source with
    | _ :: _ => namingAccount roots prior sources
    | [] =>
      match roots.namingLog source with
      | [] => []
      | entries => entries ++ namingAccount roots prior sources

namespace Selection

/-- The change from one stage to the next. -/
def stageEntry (before after : Stage) : Log.Entry :=
  ⟨.trace, "recomp", before.name ++ " -> " ++ after.name⟩

/-- The numbers of changes. -/
def changesEntry (c : Changes) : Log.Entry :=
  ⟨.debug, "recomp", "Changes: " ++ Text.ofNat c.added.size ++ " added, " ++
    Text.ofNat c.modified.size ++ " modified, " ++ Text.ofNat c.removed.size ++ " removed"⟩

/-- The plan that came out. -/
def planEntry (p : Plan) : Log.Entry :=
  match p.kind with
  | .full => ⟨.info, "recomp", "Full rebuild of " ++ Text.ofNat p.units.size ++
      " units from " ++ Text.ofNat p.sources.size ++ " sources: " ++ p.reason⟩
  | .incremental => ⟨.info, "recomp", "Incremental plan: " ++ p.reason ++ " in " ++
      Text.ofNat p.groups.length ++ " groups, " ++ Text.ofNat p.purged.size ++ " purged"⟩

/-- What is told when a stage is entered from another one. -/
def stageAccount (roots : Roots) (prior : Option Analysis) (current : Snapshots)
    (before after : Stage) : List Log.Entry :=
  match after, prior with
  | .closureComputing, some a =>
    let c := Changes.between a.snapshots current
    changesEntry c :: stageEntry before after ::
      namingAccount roots prior (c.removed.toList ++ c.modified.toList ++ c.added.toList)
  | .fullRebuild, _ => stageEntry before after :: namingAccount roots prior (presentPaths current)
  | _, _ => [stageEntry before after]

/-- All that is told about a selection. -/
def account (roots : Roots) (prior : LoadOutcome) (current : Snapshots) (s : Selection) :
    List Log.Entry :=
  ((Stage.idle :: s.stages).zip s.stages).flatMap
      (fun (before, after) => stageAccount roots prior.usable? current before after) ++
    match s.plan with
    | .ok plan => [planEntry plan]
    | .error _ => []

end Selection

end Rebuild
