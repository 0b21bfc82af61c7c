/-
  Selection: the plan for a prior analysis and what the sources look like now.

      idle -> diffing -+-> full-rebuild                      no usable prior analysis
                       |
                       +-> closure-computing -+-> plan-ready
                                              +-> full-rebuild    a limit is exceeded

  * `judge` selects the units that the changes reach, or says why it gives up;
  * `fullPlan` compiles everything, in groups if there is a prior analysis;
  * `Selection.make` joins the two; `select` is the plan of it.

  A unit is never left out that could have to be compiled: in doubt all are.
-/
import Rebuild.Analysis.Record
import Rebuild.Binary64.Text
import Rebuild.Plan.Grouping
import Rebuild.Plan.Impact

namespace Rebuild

/-- How far a selection got. -/
inductive Stage
  /-- Nothing has begun. -/
  | idle
  /-- The sources are compared with what is recorded. -/
  | diffing
  /-- Everything is to be compiled. -/
  | fullRebuild
  /-- The units that the changes reach are being found. -/
  | closureComputing
  /-- The plan is made. -/
  | planReady
deriving DecidableEq, Repr

namespace Stage

/-- The stages in the order of their numbers. -/
def all : List Stage := [idle, diffing, fullRebuild, closureComputing, planReady]

/-- The displayed name of a stage. -/
def name : Stage → Text
  | idle => "idle"
  | diffing => "diffing"
  | fullRebuild => "full-rebuild"
  | closureComputing => "closure-computing"
  | planReady => "plan-ready"

end Stage

/-! ## Compiling everything -/

/-- The paths that stand for something. -/
def presentPaths (current : Snapshots) : List Text :=
  (current.filter fun _ s => s.present).keys

/-- All artifacts that are recorded. -/
def recordedArtifacts (a : Analysis) : TextSet :=
  TextSet.ofTexts (a.units.toList.flatMap (·.2.artifacts))

/-- The groups for compiling all units: those of the recorded dependencies or, without
    any record, a single one. -/
def fullGroups (prior : Option Analysis) (sources : TextMap Text) (paths : List Text) :
    List Group :=
  match prior with
  | some a =>
    let g := sources.keys.foldl (fun g unit => (g.addNode unit).1) (Graph.ofAnalysis a)
    Grouping.make g (TextSet.ofTexts sources.keys) sources
  | none => if sources.isEmpty then [] else [⟨sources, TextSet.ofTexts paths, ∅⟩]

/-- The plan to compile everything.  Of two sources that claim the same unit the later
    one has it. -/
def fullPlan (roots : Roots) (prior : Option Analysis) (current : Snapshots) (reason : Text) :
    Except RootsError Plan :=
  let paths := presentPaths current
  (claims roots prior paths).map fun claimed =>
    let sources : TextMap Text := claimed.foldl (fun m c => m.insert c.1 c.2) ∅
    { kind := .full
      reason
      changes := Changes.between ((prior.map (·.snapshots)).getD ∅) current
      groups := fullGroups prior sources paths
      units := TextSet.ofTexts sources.keys
      sources := TextSet.ofTexts paths
      delete := (prior.map recordedArtifacts).getD ∅
      purged := TextSet.ofTexts
        (((prior.map (·.unitNames)).getD []).filter fun unit => !sources.contains unit)
      snapshots := current
      total := sources.size }

/-! ## Selecting -/

/-- What selecting comes to. -/
inductive Verdict
  | incremental (plan : Plan)
  /-- Everything is to be compiled, for this reason. -/
  | giveUp (reason : Text)

/-- More units are selected than the policy lets pass. -/
def Policy.exceeded (p : Policy) (selected total : Nat) : Bool :=
  0 < total && (p.fraction.mul (.ofNat total)).lt (.ofNat selected)

/-- The limit of the policy in percent. -/
def Policy.percent (p : Policy) : Text := (p.fraction.mul (.ofNat 100)).general 6

/-- The first group with more units than the policy lets pass. -/
def Policy.oversized? (p : Policy) (groups : List Group) : Option Group :=
  if p.groupLimit = 0 then none else groups.find? (p.groupLimit < ·.units.size)

/-- The recorded artifacts of some units. -/
def artifactsOf (a : Analysis) (units : List Text) : List Text :=
  units.flatMap fun unit => ((a.find? unit).map (·.artifacts)).getD []

/-- The plan for the selected units. -/
def incrementalPlan (a : Analysis) (i : Impact) (changes : Changes) (current : Snapshots)
    (selected : TextSet) (groups : List Group) : Plan :=
  let total := i.liveUnits.length
  let plan : Plan :=
    { kind := .incremental
      reason := Text.ofNat changes.size ++ " changed sources affect " ++
        Text.ofNat selected.size ++ " of " ++ Text.ofNat total ++ " units"
      changes
      groups
      units := selected
      sources := groups.foldl (fun s g => s.insertMany g.sources.toList) ∅
      delete := TextSet.ofTexts (artifactsOf a (selected.toList ++ i.purged.toList))
      purged := i.purged.filter fun unit => !i.added.contains unit
      snapshots := current
      total }
  if plan.isEmpty then { plan with reason := "up to date" } else plan

/-- Selects the units that the changes since the analysis reach. -/
def judge (roots : Roots) (policy : Policy) (a : Analysis) (current : Snapshots) :
    Except RootsError Verdict := do
  let changes := Changes.between a.snapshots current
  let removed ← claims roots a changes.removed.toList
  let changed ← claims roots a (changes.modified.toList ++ changes.added.toList)
  let i := Impact.ofClaims a removed changed
  if let some unit := i.spanning? a then
    return .giveUp ("unit '" ++ unit ++ "' produces whole-program output")
  let g := i.graph a
  let selected := i.selected g a
  let total := i.liveUnits.length
  if policy.exceeded selected.size total then
    return .giveUp (Text.ofNat selected.size ++ " of " ++ Text.ofNat total ++
      " units affected (limit " ++ policy.percent ++ "%)")
  let groups := Grouping.make g selected i.sources
  if let some group := policy.oversized? groups then
    return .giveUp ("recompilation group of " ++ Text.ofNat group.units.size ++
      " units exceeds limit of " ++ Text.ofNat policy.groupLimit)
  return .incremental (incrementalPlan a i changes current selected groups)

/-! ## The plan -/

/-- A selection: the stages passed after the first, and the plan. -/
structure Selection where
  stages : List Stage
  plan : Except RootsError Plan

namespace Selection

/-- Why a prior analysis that cannot be used makes everything be compiled. -/
def staleReason (prior : LoadOutcome) : Text :=
  let reason : Text := "prior analysis " ++ prior.reason.name
  if prior.detail = [] then reason else reason ++ " (" ++ prior.detail ++ ")"

/-- Selects from what was loaded. -/
def make (roots : Roots) (policy : Policy) (prior : LoadOutcome) (current : Snapshots) :
    Selection :=
  match prior.usable? with
  | none => ⟨[.diffing, .fullRebuild], fullPlan roots none current (staleReason prior)⟩
  | some a =>
    match judge roots policy a current with
    | .error e => ⟨[.diffing, .closureComputing], .error e⟩
    | .ok (.incremental plan) => ⟨[.diffing, .closureComputing, .planReady], .ok plan⟩
    | .ok (.giveUp reason) =>
      ⟨[.diffing, .closureComputing, .fullRebuild], fullPlan roots (some a) current reason⟩

/-- The last stage. -/
def state (s : Selection) : Stage := s.stages.getLastD .idle

end Selection

/-- The plan for what was loaded and what the sources look like now. -/
def select (roots : Roots) (policy : Policy) (prior : LoadOutcome) (current : Snapshots) :
    Except RootsError Plan :=
  (Selection.make roots policy prior current).plan

end Rebuild
